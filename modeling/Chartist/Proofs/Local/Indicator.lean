import Chartist.Indicator.Bundle
import Chartist.Indicator.OnBars
import Chartist.Proofs.Catalog
import Chartist.Proofs.Causal.Window
import Chartist.Proofs.Local.Deque
import Chartist.Proofs.Whole

/-!
# Windowed indicators have a finite memory

What each windowed indicator answers on a bar is fixed by the last values up to it: as many as
its window holds, and one more for those that read changes (`SeriesIndicator.reach` and its
companions). `windowed_remember` says so for all of them, with no law on the arithmetic.
-/

namespace Chartist

open Window Adaptive Scalar

variable {α : Type} [Scalar α]

/-! ## Changes inside a window -/

namespace Adaptive

theorem changes_drop (data : List α) (n : Nat) : changes (data.drop n) = (changes data).drop n := by
  unfold changes
  rw [List.drop_zipWith, List.drop_drop, List.drop_drop, Nat.add_comm]

/-- The last changes up to an index are those inside a window of one value more. -/
theorem changesUpTo_changes (data : List α) (i length : Nat) :
    changesUpTo (changes data) i length = changes (trailing data i (length + 1)) := by
  have starts : i + 1 - (length + 1) = i - length := by omega
  rw [trailing_eq_drop, changes_drop, changes_take, starts, Nat.add_sub_cancel, List.drop_take]
  rfl

omit [Scalar α] in
theorem changesUpTo_map (f : α → α) (all : List α) (i length : Nat) :
    changesUpTo (all.map f) i length = (changesUpTo all i length).map f := by
  unfold changesUpTo
  rw [← List.map_drop, ← List.map_take]

/-- The momentum over the changes inside a window. -/
def momentumOf (window : List α) : α :=
  let up := sum ((changes window).map gain)
  let down := sum ((changes window).map loss)
  if lt epsilon (up + down) then clamp ((up - down) / (up + down)) (-1) 1 else 0

/-- The efficiency ratio over the changes inside a window. -/
def efficiencyOf (window : List α) : α :=
  let path := sum ((changes window).map Scalar.abs)
  let distance := Scalar.abs (window.getLast?.getD nan - window[0]?.getD nan)
  clamp (distance / maxNum path epsilon) 0 1

theorem momentum_eq_rolling (data : List α) (length : Nat) :
    momentum data length = rolling momentumOf data (length + 1) := by
  unfold momentum
  simp only [changesUpTo_map, changesUpTo_changes]
  rfl

/-- The distance is that of the first and the last value of the window. -/
theorem efficiencyRatio_eq_rolling (data : List α) (period : Nat) :
    efficiencyRatio data period = rolling efficiencyOf data (period + 1) := by
  refine List.map_congr_left fun i member => ?_
  have inside : i < data.length := List.mem_range.mp member
  have some : 0 < span i (period + 1) := by
    unfold span
    omega
  have first : start i (period + 1) + 0 = i - period := by
    unfold start span
    omega
  simp only [efficiencyOf, changesUpTo_map, changesUpTo_changes]
  rw [getLast?_trailing inside (Nat.succ_pos _), getElem?_trailing some, first]

theorem remembers_momentum (length : Nat) :
    Remembers (length + 1) fun data : Series α => momentum data length := by
  simp only [momentum_eq_rolling]
  exact .rolling _ _

theorem remembers_efficiencyRatio (period : Nat) :
    Remembers (period + 1) fun data : Series α => efficiencyRatio data period := by
  simp only [efficiencyRatio_eq_rolling]
  exact .rolling _ _

theorem remembers_deviationRatio {short long : Nat} (shorter : short < long) :
    Remembers long fun data : Series α => deviationRatio data short long :=
  ((Remembers.rolling deviation short).widen (Nat.le_of_lt shorter)).zipWith
    (.rolling deviation long) _

theorem remembers_meanRatio {short long : Nat} (shorter : short < long) :
    Remembers long fun data : Series α => meanRatio data short long :=
  ((Remembers.rolling mean short).widen (Nat.le_of_lt shorter)).zipWith (.rolling mean long) _

end Adaptive

/-! ## Running extremes -/

namespace Window

theorem remembers_extremesFrom (keep : α → α → Bool) {length : Nat} (positive : 0 < length) :
    Remembers length fun data => extremesFrom keep length [] 0 data := by
  have windows : (fun data => extremesFrom keep length [] 0 data) =
      fun data => rolling (oldest keep) data length :=
    funext fun data => extremesFrom_eq_rolling keep positive data
  rw [windows]
  exact .rolling _ _

end Window

/-! ## How far the indicators look back -/

/-- The number of values that a windowed indicator on a series reads. -/
def SeriesIndicator.reach : SeriesIndicator α → Option Nat
  | .simple period | .weighted _ period | .median period | .deviation period
  | .average .simple period | .average .linear period => some period
  | .rank window _ => some window.length
  | .momentum period => some (period + 1)
  | _ => none

/-- The number of bars that a windowed indicator on bars reads. -/
def BarIndicator.reach : BarIndicator → Option Nat
  | .stochastic period | .donchian period _ => some period
  | _ => none

/-- The number of values that a windowed bundle reads. -/
def Bundle.reach : Bundle α → Option Nat
  | .bollinger period _ => some period
  | .macd .. => none

theorem SeriesIndicator.remembers_values {i : SeriesIndicator α} {width : Nat}
    (reach : i.reach = some width) : Remembers width i.values := by
  cases i with
  | simple period =>
      cases reach
      exact .rolling mean _
  | weighted kernel period =>
      cases reach
      exact .rolling kernel.average _
  | median period =>
      cases reach
      exact .rolling Window.median _
  | deviation period =>
      cases reach
      exact .rolling Window.deviation _
  | average method period =>
      cases method with
      | simple =>
          cases reach
          exact .rolling mean _
      | linear =>
          cases reach
          exact .rolling (Kernel.average .linear) _
      | exponential | smoothed => cases reach
  | momentum period =>
      cases reach
      exact (remembers_momentum _).map (· * 100)
  | rank window percent =>
      cases reach
      -- the value that is ranked is the last one of its window
      by_cases positive : 0 < window.length
      · refine .of_windows (fun i values =>
          let degenerate : α := if percent then 50 else 0.5
          let x := values.getLast?.getD nan
          let f (xs : List α) : α :=
            if percent then percentRank xs x degenerate else Window.rank xs x degenerate
          (if window.isReady i then some (f values) else none).getD degenerate) fun data => ?_
        refine List.map_congr_left fun i member => ?_
        have inside : i < data.length := List.mem_range.mp member
        simp only [guarded, getLast?_trailing inside positive]
      · -- an empty window has no extent, whatever is ranked in it
        have empty (data : List α) (i : Nat) : trailing data i window.length = [] := by
          rw [Nat.eq_zero_of_not_pos positive, trailing, span, Nat.zero_min, List.take_zero]
        refine .of_windows (fun _ _ => if percent then 50 else 0.5) fun data => ?_
        refine List.map_congr_left fun i _ => ?_
        simp only [guarded, empty, percentRank, Window.rank, extent, List.isEmpty_nil, if_true]
        cases percent <;> cases window.isReady i <;> rfl
  | exponential | smoothed | cascade | efficiencyAverage | momentumAverage | pole | laguerre
  | kalman | rsi | laguerreRsi => cases reach

theorem BarIndicator.remembers_channelLine {period : Nat} (positive : 0 < period)
    (line : ChannelLine) : Remembers period fun bars : Bars α => channelLine bars period line := by
  have upper : Remembers period fun bars : Bars α => upperLine bars period :=
    (remembers_extremesFrom _ positive).comp_map fun bar : Bar α => bar.price .high
  have lower : Remembers period fun bars : Bars α => lowerLine bars period :=
    (remembers_extremesFrom _ positive).comp_map fun bar : Bar α => bar.price .low
  cases line with
  | upper => exact upper
  | lower => exact lower
  | middle => exact upper.zipWith lower _

theorem BarIndicator.remembers_values {i : BarIndicator} {width : Nat}
    (valid : (i.validate : Except (StudyError α) Unit) = .ok ()) (reach : i.reach = some width) :
    Remembers width (i.values : Bars α → Series α) := by
  cases i with
  | stochastic period =>
      cases reach
      obtain ⟨_, passed, -⟩ := exists_of_bind_ok valid
      have positive := checkPeriod_pos passed
      have channel := (remembers_channelLine (α := α) positive .upper).zipWith
        (remembers_channelLine positive .lower) Prod.mk
      exact (Remembers.id positive).zipWith channel _
  | donchian period line =>
      cases reach
      obtain ⟨_, passed, -⟩ := exists_of_bind_ok valid
      exact remembers_channelLine (checkPeriod_pos passed) line
  | trueRange | averageTrueRange | volatilityAverage | fractalAverage => cases reach

theorem Bundle.remembers_output {b : Bundle α} {width : Nat} {output : String}
    (valid : b.validate = .ok ()) (reach : b.reach = some width) (known : output ∈ b.names) :
    Remembers width fun data => ((b.outputs data).lookup output).getD [] := by
  cases b with
  | macd => cases reach
  | bollinger period multiplier =>
      cases reach
      obtain ⟨_, -, rest⟩ := exists_of_bind_ok valid
      obtain ⟨_, passed, -⟩ := exists_of_bind_ok rest
      have middle : Remembers width fun data : Series α => rollingMean data width :=
        .rolling _ _
      have deviation : Remembers width fun data : Series α => rollingDeviation data width :=
        .rolling _ _
      have upper := middle.zipWith deviation fun m s => m + multiplier * s
      have lower := middle.zipWith deviation fun m s => m - multiplier * s
      have between := upper.zipWith lower Prod.mk
      simp only [names, List.mem_cons, List.not_mem_nil, or_false] at known
      rcases known with rfl | rfl | rfl | rfl | rfl
      · exact upper
      · exact middle
      · exact lower
      · exact (Remembers.id (checkPeriod_pos passed)).zipWith between _
      · exact middle.zipWith between _

/-- Every windowed indicator answers from the last values that its window holds, whatever was
before them: the averages, the medians, deviations and ranks on series, the channel and the
place in it on bars, every line of the bands, and the ratios that drive adaptive averages. -/
theorem windowed_remember :
    (∀ (i : SeriesIndicator α) (width : Nat), i.reach = some width → Remembers width i.values) ∧
    (∀ (i : BarIndicator) (width : Nat),
      (i.validate : Except (StudyError α) Unit) = .ok () → i.reach = some width →
        Remembers width (i.values : Bars α → Series α)) ∧
    (∀ (b : Bundle α) (width : Nat) (output : String),
      b.validate = .ok () → b.reach = some width → output ∈ b.names →
        Remembers width fun data => ((b.outputs data).lookup output).getD []) ∧
    (∀ period : Nat,
      Remembers (period + 1) fun data : Series α => efficiencyRatio data period) ∧
    ∀ short long : Nat, short < long →
      (Remembers long fun data : Series α => deviationRatio data short long) ∧
      Remembers long fun data : Series α => meanRatio data short long :=
  ⟨fun _ _ => SeriesIndicator.remembers_values, fun _ _ => BarIndicator.remembers_values,
    fun _ _ _ => Bundle.remembers_output, remembers_efficiencyRatio,
    fun _ _ shorter => ⟨remembers_deviationRatio shorter, remembers_meanRatio shorter⟩⟩

/-- A bar of old that a window of two bars has left behind: the channel, the bands and the rank
no longer tell a price of 9 from one of 900. -/
theorem windowed_remember_whole :
    let recent : Bars Whole := ⟨0, ⟨9⟩, ⟨9⟩, ⟨9⟩, ⟨9⟩, ⟨1⟩⟩ :: Whole.twoBars
    let altered : Bars Whole := ⟨0, ⟨900⟩, ⟨900⟩, ⟨900⟩, ⟨900⟩, ⟨1⟩⟩ :: Whole.twoBars
    let rank : SeriesIndicator Whole := .rankOver 2 1 true
    let bands : Bundle Whole := .bollinger 2 ⟨1⟩
    rank.reach = some 2 ∧ Remembers 2 rank.values ∧
    bands.validate = .ok () ∧ bands.reach = some 2 ∧ "percent_b" ∈ bands.names ∧
    (Remembers 2 fun data => ((bands.outputs data).lookup "percent_b").getD []) ∧
    ((BarIndicator.donchian 2 .upper).validate : Except (StudyError Whole) Unit) = .ok () ∧
    (BarIndicator.donchian 2 .upper).reach = some 2 ∧ SameWindow 2 2 recent altered ∧
    (∃ answer, ((BarIndicator.donchian 2 .upper).values recent)[2]? = some answer ∧
      ((BarIndicator.donchian 2 .upper).values altered)[2]? = some answer) ∧
    1 < 2 ∧ Remembers 2 fun data : Series Whole => deviationRatio data 1 2 := by
  intro recent altered rank bands
  have inside : within Bundle.minMultiplier (⟨1⟩ : Whole) 100 = true := by decide +kernel
  have accepted : bands.validate = .ok () := by
    simp only [bands, Bundle.validate, checkRange, inside, if_true]
    rfl
  have named : "percent_b" ∈ bands.names := by decide
  have same : SameWindow 2 2 recent altered := by
    intro j after before
    obtain rfl | rfl : j = 1 ∨ j = 2 := by omega
    · rfl
    · rfl
  obtain ⟨series, bars, bundles, -, ratios⟩ := windowed_remember (α := Whole)
  have channel := bars (.donchian 2 .upper) 2 rfl rfl
  exact ⟨rfl, series rank 2 rfl, accepted, rfl, named, bundles bands 2 _ accepted rfl named, rfl,
    rfl, same, channel recent altered 2 rfl (by decide) (by decide) same, by decide,
    (ratios 1 2 (by decide)).1⟩

end Chartist
