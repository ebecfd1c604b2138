import Chartist.Indicator.Handler
import Chartist.Proofs.Indexed.Indicator
import Chartist.Proofs.Word.Adaptive
import Chartist.Proofs.Word.Extreme
import Chartist.Scalar.Binary64

/-!
# Windowed handlers on words

What a windowed handler answers with every sum of two indices formed on words
(`Overflow.values`). All sums but one are at most the length of the bars or of a window, so there
is an answer and it is the exact one, with two exceptions (`values_on_words`).

Kernels and medians set room for a whole window aside (`Handler.rooms`), and a window of 2^60 values
or more finds none in any build, however few bars there are. Channels set no more aside than there
are bars, but their running extremes add the window length to an index, and with a window of almost
2^64 bars that sum may leave the words (`Handler.overruns`): then a checked build has no answer, and
an unchecked one has another. No memory that words address holds more than 2^63 bars.
-/

namespace Chartist

open Window Chartist.Filter Adaptive Scalar

variable {α : Type} [Scalar α]

/-! ## Windows of handlers -/

/-- The lengths of the windows that an indicator moves along its series. -/
def SeriesIndicator.windows : SeriesIndicator α → List Nat
  | .simple period | .weighted _ period | .median period | .average .simple period
  | .average .linear period | .efficiencyAverage period _ _ | .momentumAverage _ period
  | .momentum period | .deviation period => [period]
  | .rank window _ => [window.length]
  | _ => []

/-- The lengths of the windows that an indicator moves along bars. -/
def BarIndicator.windows : BarIndicator → List Nat
  | .volatilityAverage _ short long _ _ => [short, long]
  | .fractalAverage period _ | .stochastic period | .donchian period _ => [period]
  | .trueRange | .averageTrueRange _ => []

/-- The lengths of the windows that a bundle moves along its series. -/
def Bundle.windows : Bundle α → List Nat
  | .bollinger period _ => [period]
  | .macd .. => []

/-- The lengths of the windows that a handler moves along bars. -/
def Handler.windows : Handler α → List Nat
  | .onPrice _ indicator => indicator.windows
  | .onBars indicator => indicator.windows
  | .onOutput _ bundle _ => bundle.windows

/-! ## Room for windows -/

/-- The numbers of values for which an indicator sets room aside before it looks at a series. -/
def SeriesIndicator.rooms : SeriesIndicator α → List Nat
  | .weighted _ period | .median period | .average .linear period => [period]
  | _ => []

/-- The numbers of values for which a handler sets room aside before it looks at bars. -/
def Handler.rooms : Handler α → List Nat
  | .onPrice _ indicator => indicator.rooms
  | .onBars _ | .onOutput .. => []

/-! ## Channels -/

namespace BarIndicator

/-- A line of the channel has an index at its front whose sum with the length no word holds. -/
def channelOverruns (bars : Bars α) (period : Nat) : Bool :=
  (firstOverrun? (fun old new => lt new old) period (bars.price .high)).isSome ||
    (firstOverrun? (fun old new => lt old new) period (bars.price .low)).isSome

/-- The lines of a channel that forget their windows where their sums overrun. -/
def overrunChannel (bars : Bars α) (period : Nat) : Series α × Series α :=
  (overrunExtremes (fun old new => lt new old) period (bars.price .high),
    overrunExtremes (fun old new => lt old new) period (bars.price .low))

/-- The output of an indicator that reads a channel, given the upper and the lower line. -/
def ofChannel (i : BarIndicator) (bars : Bars α) (lines : Series α × Series α) : Series α :=
  match i with
  | .stochastic _ =>
    List.zipWith (fun b (high, low) => stochasticValue b.close high low) bars
      (lines.1.zip lines.2)
  | .donchian _ .upper => lines.1
  | .donchian _ .lower => lines.2
  | .donchian _ .middle => List.zipWith (fun u l => (u + l) / 2) lines.1 lines.2
  | i => i.values bars

def overruns (i : BarIndicator) (bars : Bars α) : Bool :=
  match i with
  | .stochastic period | .donchian period _ => channelOverruns bars period
  | _ => false

def overrunValues (i : BarIndicator) (bars : Bars α) : Series α :=
  match i with
  | .stochastic period | .donchian period _ => i.ofChannel bars (overrunChannel bars period)
  | i => i.values bars

end BarIndicator

/-- A channel that the handler reads has a sum that no word holds. -/
def Handler.overruns (h : Handler α) (bars : Bars α) : Bool :=
  match h with
  | .onBars indicator => indicator.overruns bars
  | .onPrice .. | .onOutput .. => false

/-- The output from channels that forget their windows where their sums overrun. -/
def Handler.overrunValues (h : Handler α) (bars : Bars α) : Series α :=
  match h with
  | .onBars indicator => indicator.overrunValues bars
  | .onPrice .. | .onOutput .. => h.values bars

namespace Window.Overflow

variable (o : Overflow)

/-! ## Outputs on words -/

def alphas (rule : Rule) (data : List α) : Option (List α) :=
  match rule with
  | .efficiency period fast slow => do
    return afterLookback period (kamaAlpha · fast slow) (← o.efficiencyRatio data period)
  | .momentum period length => do
    return ratioAlphas ((← o.momentum data length).map Scalar.abs) period length
  | .volatility period short long => do
    return ratioAlphas (ratio (← o.rollingDeviation data short) (← o.rollingDeviation data long))
      period long

/-- The output for a series; indicators without windows are as they are by index. -/
def seriesValues (i : SeriesIndicator α) (data : Series α) : Option (Series α) :=
  match i with
  | .simple period | .average .simple period => o.rollingMean data period
  | .average .linear period => o.weightedAverage data .linear period
  | .weighted kernel period => o.weightedAverage data kernel period
  | .median period => o.movingMedian data period
  | .efficiencyAverage period fast slow => do
    Indexed.smoothBy data (← o.alphas (.efficiency period fast slow) data)
  | .momentumAverage period length => do
    Indexed.smoothBy data (← o.alphas (.momentum period length) data)
  | .momentum period => do return (← o.momentum data period).map (· * 100)
  | .rank window percent => o.ranks window percent data
  | .deviation period => o.rollingDeviation data period
  | i => Indexed.seriesValues i data

/-- The upper and the lower line of a channel; both are found, whichever of them is asked for. -/
def channel (bars : Bars α) (period : Nat) : Option (Series α × Series α) := do
  let upper ← o.rollingHighest (bars.price .high) period
  let lower ← o.rollingLowest (bars.price .low) period
  return (upper, lower)

/-- The output for bars. -/
def barValues (i : BarIndicator) (bars : Bars α) : Option (Series α) :=
  match i with
  | .trueRange => Indexed.trueRanges bars
  | .averageTrueRange period => do Indexed.smooth (smmaAlpha period) (← Indexed.trueRanges bars)
  | .volatilityAverage period short long .deviation source => do
    let price := bars.price source
    Indexed.smoothBy price (← o.alphas (.volatility period short long) price)
  | .volatilityAverage period short long .trueRange source => do
    let ranges ← Indexed.trueRanges bars
    let ratios := ratio (← o.rollingMean ranges short) (← o.rollingMean ranges long)
    Indexed.smoothBy (bars.price source) (ratioAlphas ratios period long)
  | .fractalAverage period source => do
    let alphas ← o.fractalAlphas (bars.price .high) (bars.price .low) period
    Indexed.smoothBy (bars.price source) alphas
  | .stochastic period | .donchian period _ => do
    return i.ofChannel bars (← o.channel bars period)

/-- The outputs for a series, by name. -/
def outputs (b : Bundle α) (data : Series α) : Option (List (String × Series α)) :=
  match b with
  | .macd .. => some (b.outputs data)
  | .bollinger period multiplier => do
    Indexed.bands multiplier data (← o.rollingMean data period) (← o.rollingDeviation data period)

/-- One value for each bar. -/
def values (h : Handler α) (bars : Bars α) : Option (Series α) :=
  match h with
  | .onPrice source indicator => o.seriesValues indicator (bars.price source)
  | .onBars indicator => o.barValues indicator bars
  | .onOutput source bundle output => do
    return ((← o.outputs bundle (bars.price source)).lookup output).getD (Handler.missing bars)

/-! ## Exact answers -/

section Series

variable {data : Series α} (held : data.length < wordCount)
include held

theorem alphas_eq {rule : Rule} (valid : (rule.validate : Except (StudyError α) Unit) = .ok ()) :
    o.alphas rule data = some (rule.alphas data) := by
  cases rule with
  | efficiency period fast slow =>
      rw [alphas, o.efficiencyRatio_eq held]
      rfl
  | momentum period length =>
      rw [alphas, o.momentum_eq held]
      rfl
  | volatility period short long =>
      obtain ⟨_, -, rest⟩ := exists_of_bind_ok valid
      obtain ⟨_, shortValid, rest⟩ := exists_of_bind_ok rest
      obtain ⟨_, longValid, -⟩ := exists_of_bind_ok rest
      rw [alphas, o.rollingDeviation_eq held (checkPeriod_pos shortValid), Option.bind_eq_bind,
        Option.bind_some, o.rollingDeviation_eq held (checkPeriod_pos longValid)]
      rfl

theorem smoothBy_alphas (rule : Rule)
    (valid : (rule.validate : Except (StudyError α) Unit) = .ok ()) :
    (do Indexed.smoothBy data (← o.alphas rule data)) =
      some (Filter.smoothBy data (rule.alphas data)) := by
  rw [o.alphas_eq held valid]
  exact Indexed.smoothBy_eq (rule.causal_alphas.length data)

theorem seriesValues_eq {i : SeriesIndicator α} (valid : i.validate = .ok ())
    (fits : ∀ r ∈ i.rooms, r < roomLimit) : o.seriesValues i data = some (i.values data) := by
  have positive {name : String} {period : Nat}
      (checked : (do let _ ← checkPeriod name period) = (.ok () : Except (StudyError α) Unit)) :
      0 < period := by
    obtain ⟨_, passed, -⟩ := exists_of_bind_ok checked
    exact checkPeriod_pos passed
  cases i with
  | simple period => exact o.rollingMean_eq held (positive valid)
  | weighted kernel period =>
      obtain ⟨_, passed, -⟩ := exists_of_bind_ok valid
      exact o.weightedAverage_eq held (checkPeriod_pos passed) kernel (fits _ List.mem_cons_self)
  | median period => exact o.movingMedian_eq held (positive valid) (fits _ List.mem_cons_self)
  | average method period =>
      cases method with
      | simple => exact o.rollingMean_eq held (positive valid)
      | linear =>
          exact o.weightedAverage_eq held (positive valid) .linear (fits _ List.mem_cons_self)
      | exponential => exact Indexed.seriesValues_eq valid data
      | smoothed => exact Indexed.seriesValues_eq valid data
  | efficiencyAverage period fast slow =>
      exact o.smoothBy_alphas held (.efficiency period fast slow) valid
  | momentumAverage period length => exact o.smoothBy_alphas held (.momentum period length) valid
  | momentum period =>
      rw [seriesValues, o.momentum_eq held]
      rfl
  | rank window percent => exact o.ranks_eq percent held (positive valid)
  | deviation period => exact o.rollingDeviation_eq held (positive valid)
  | exponential | smoothed | cascade | pole | laguerre | kalman | rsi | laguerreRsi =>
      exact Indexed.seriesValues_eq valid data

theorem outputs_eq {b : Bundle α} (valid : b.validate = .ok ()) :
    o.outputs b data = some (b.outputs data) := by
  cases b with
  | macd => rfl
  | bollinger period multiplier =>
      obtain ⟨_, -, rest⟩ := exists_of_bind_ok valid
      obtain ⟨_, passed, -⟩ := exists_of_bind_ok rest
      have positive := checkPeriod_pos passed
      rw [outputs, o.rollingMean_eq held positive, o.rollingDeviation_eq held positive]
      exact Indexed.bands_eq multiplier ((Causal.rolling mean period).length data)
        ((Causal.rolling deviation period).length data)

end Series

/-! ## Windows without room -/

theorem seriesValues_eq_none {i : SeriesIndicator α} (large : ∃ r ∈ i.rooms, roomLimit ≤ r)
    (data : Series α) : o.seriesValues i data = none := by
  obtain ⟨r, member, large⟩ := large
  cases i with
  | weighted kernel period =>
      obtain rfl := List.mem_singleton.mp member
      exact o.weightedAverage_eq_none large data kernel
  | median period =>
      obtain rfl := List.mem_singleton.mp member
      exact o.movingMedian_eq_none large data
  | average method period =>
      cases method with
      | linear =>
          obtain rfl := List.mem_singleton.mp member
          exact o.weightedAverage_eq_none large data .linear
      | simple | exponential | smoothed => cases member
  | _ => cases member

theorem values_eq_none {h : Handler α} (large : ∃ r ∈ h.rooms, roomLimit ≤ r) (bars : Bars α) :
    o.values h bars = none := by
  cases h with
  | onPrice source i => exact o.seriesValues_eq_none large (bars.price source)
  | onBars i | onOutput source b output =>
      obtain ⟨r, member, -⟩ := large
      cases member

/-! ## Channels past the last word -/

open BarIndicator

section Channel

variable {bars : Bars α} (held : 2 * bars.length ≤ wordCount)
include held

theorem length_price_le (source : PriceSource) : 2 * (bars.price source).length ≤ wordCount := by
  rwa [(Bars.causal_price source).length bars]

theorem length_price_lt (source : PriceSource) : (bars.price source).length < wordCount := by
  have half := length_price_le held source
  have positive := wordCount_pos
  omega

variable {period : Nat} (positive : 0 < period)
include positive

theorem channel_eq (fits : channelOverruns bars period = false) :
    o.channel bars period = some (upperLine bars period, lowerLine bars period) := by
  rw [channelOverruns, Bool.or_eq_false_iff] at fits
  simp only [Option.isSome_eq_false_iff, Option.isNone_iff_eq_none] at fits
  rw [channel, rollingHighest, o.extremesFrom_eq positive (length_price_le held .high) fits.1,
    rollingLowest, o.extremesFrom_eq positive (length_price_le held .low) fits.2]
  rfl

theorem trap_channel (overruns : channelOverruns bars period = true) :
    trap.channel bars period = none := by
  rw [channel, rollingHighest, rollingLowest,
    extremesFrom_trap positive (length_price_le held .high),
    extremesFrom_trap positive (length_price_le held .low)]
  rcases Bool.or_eq_true_iff.mp overruns with upper | lower
  · rw [if_pos upper]
    rfl
  · rw [if_pos lower]
    split <;> rfl

theorem wrap_channel (word : period < wordCount) :
    wrap.channel bars period = some (overrunChannel bars period) := by
  rw [channel, rollingHighest, rollingLowest,
    extremesFrom_wrap positive word (length_price_le held .high),
    extremesFrom_wrap positive word (length_price_le held .low)]
  rfl

end Channel

section Bars

variable {i : BarIndicator} {bars : Bars α}
  (valid : (i.validate : Except (StudyError α) Unit) = .ok ()) (held : 2 * bars.length ≤ wordCount)
include valid held

theorem barValues_eq (fits : i.overruns bars = false) :
    o.barValues i bars = some (i.values bars) := by
  have prices := length_price_lt held
  cases i with
  | trueRange => exact Indexed.trueRanges_eq bars
  | averageTrueRange period =>
      rw [barValues, Indexed.trueRanges_eq]
      exact Indexed.smooth_eq _ _
  | volatilityAverage period short long measure source =>
      cases measure with
      | deviation => exact o.smoothBy_alphas (prices source) (.volatility period short long) valid
      | trueRange =>
          obtain ⟨_, -, rest⟩ := exists_of_bind_ok valid
          obtain ⟨_, shortValid, rest⟩ := exists_of_bind_ok rest
          obtain ⟨_, longValid, -⟩ := exists_of_bind_ok rest
          have count : bars.trueRanges.length = bars.length := Bars.causal_trueRanges.length bars
          have ranges : bars.trueRanges.length < wordCount := by
            have positive := wordCount_pos
            omega
          have ratios : (meanRatio bars.trueRanges short long).length = bars.trueRanges.length :=
            ((Causal.rolling mean short).zipWith (.rolling mean long) _).length _
          have aligned : (ratioAlphas (meanRatio bars.trueRanges short long) period long).length =
              (bars.price source).length := by
            rw [(causal_ratioAlphas period long).length, (Bars.causal_price source).length bars,
              ratios, count]
          rw [barValues, Indexed.trueRanges_eq, Option.bind_eq_bind, Option.bind_some,
            o.rollingMean_eq ranges (checkPeriod_pos shortValid),
            o.rollingMean_eq ranges (checkPeriod_pos longValid)]
          exact Indexed.smoothBy_eq aligned
  | fractalAverage period source =>
      have aligned : (Adaptive.fractalAlphas (bars.price .high) (bars.price .low) period).length =
          (bars.price source).length := by
        rw [Adaptive.fractalAlphas, (causal_fractalAlphasFrom _ _ _ _).length, List.length_range]
        simp only [(Bars.causal_price _).length bars, Nat.min_self]
      rw [barValues, o.fractalAlphas_eq (prices .high)]
      exact Indexed.smoothBy_eq aligned
  | stochastic period =>
      obtain ⟨_, passed, -⟩ := exists_of_bind_ok valid
      rw [barValues, o.channel_eq held (checkPeriod_pos passed) fits]
      rfl
  | donchian period line =>
      obtain ⟨_, passed, -⟩ := exists_of_bind_ok valid
      rw [barValues, o.channel_eq held (checkPeriod_pos passed) fits]
      cases line <;> rfl

theorem trap_barValues (overruns : i.overruns bars = true) : trap.barValues i bars = none := by
  cases i with
  | stochastic period | donchian period line =>
      obtain ⟨_, passed, -⟩ := exists_of_bind_ok valid
      rw [barValues, trap_channel held (checkPeriod_pos passed) overruns]
      rfl
  | trueRange | averageTrueRange | volatilityAverage | fractalAverage => cases overruns

theorem wrap_barValues (words : ∀ w ∈ i.windows, w < wordCount)
    (overruns : i.overruns bars = true) :
    wrap.barValues i bars = some (i.overrunValues bars) := by
  cases i with
  | stochastic period | donchian period line =>
      obtain ⟨_, passed, -⟩ := exists_of_bind_ok valid
      rw [barValues, wrap_channel held (checkPeriod_pos passed) (words _ List.mem_cons_self)]
      rfl
  | trueRange | averageTrueRange | volatilityAverage | fractalAverage => cases overruns

end Bars

/-- An overrun takes a window and bars that together leave the words. -/
theorem exists_window_of_overruns {i : BarIndicator} {bars : Bars α}
    (overruns : i.overruns bars = true) : ∃ w ∈ i.windows, wordCount < bars.length + w := by
  have channel {period : Nat} (far : channelOverruns bars period = true) :
      wordCount < bars.length + period := by
    by_contra fits
    have none {keep : α → α → Bool} (source : PriceSource) :
        firstOverrun? keep period (bars.price source) = none := by
      refine firstOverrun?_eq_none ?_
      rw [(Bars.causal_price source).length bars]
      exact Nat.not_lt.mp fits
    rw [channelOverruns, none, none] at far
    cases far
  cases i with
  | stochastic period | donchian period line =>
      exact ⟨period, List.mem_cons_self, channel overruns⟩
  | trueRange | averageTrueRange | volatilityAverage | fractalAverage => cases overruns

end Window.Overflow

open Window.Overflow

/-- What windowed handlers answer on words. As long as no channel overruns and there is room for the
windows there is an answer, the exact one, whatever becomes of sums that no word holds. Where there
is no room for a window, there is no answer in any build and over any bars. Where a channel
overruns, which takes a window that leaves the words together with the bars, a checked build has no
answer, and an unchecked one takes every value for its own window from the overrun on. -/
theorem values_on_words {h : Handler α} (accepted : h.Accepted)
    (words : ∀ w ∈ h.windows, w < wordCount) {bars : Bars α} (held : 2 * bars.length ≤ wordCount) :
    (h.overruns bars = false → (∀ r ∈ h.rooms, r < roomLimit) →
      ∀ o : Overflow, o.values h bars = some (h.values bars)) ∧
    ((∃ r ∈ h.rooms, roomLimit ≤ r) → ∀ o : Overflow, o.values h bars = none) ∧
    (h.overruns bars = true → trap.values h bars = none ∧
      wrap.values h bars = some (h.overrunValues bars) ∧
      ∃ w ∈ h.windows, wordCount < bars.length + w) := by
  have prices := length_price_lt held
  refine ⟨?_, fun large o => o.values_eq_none large bars, ?_⟩
  · intro within fits o
    cases h with
    | onPrice source i => exact o.seriesValues_eq (prices source) accepted fits
    | onBars i => exact o.barValues_eq accepted held within
    | onOutput source b output =>
        rw [Overflow.values, o.outputs_eq (prices source) accepted.1]
        rfl
  · intro far
    cases h with
    | onBars i =>
        refine ⟨?_, ?_, ?_⟩
        · exact trap_barValues accepted held far
        · exact wrap_barValues accepted held words far
        · exact exists_window_of_overruns far
    | onPrice source i | onOutput source b output => cases far

/-- Three bars with highs of 1, 5 and 3. -/
def peakBars : Bars Float := [⟨0, 1, 1, 1, 1, 1⟩, ⟨60, 5, 5, 5, 5, 1⟩, ⟨120, 3, 3, 3, 3, 1⟩]

/-- On three bars the sums of a channel of 2^64 - 3 bars are words, and those of the longest one are
not. There is room for the window of a median of 2^60 - 1 bars, and none for a longer one. -/
theorem values_on_words_longest :
    let fitting : Handler Float := .onBars (.donchian (wordCount - 3) .middle)
    let longest : Handler Float := .onBars (.donchian (wordCount - 1) .middle)
    let narrow : Handler Float := .onPrice .close (.median (roomLimit - 1))
    let broad : Handler Float := .onPrice .close (.median roomLimit)
    (∀ h ∈ [fitting, longest, narrow, broad], h.Accepted ∧ ∀ w ∈ h.windows, w < wordCount) ∧
    2 * peakBars.length ≤ wordCount ∧
    fitting.overruns peakBars = false ∧ longest.overruns peakBars = true ∧
    (∀ r ∈ narrow.rooms, r < roomLimit) ∧ (∃ r ∈ broad.rooms, roomLimit ≤ r) ∧
    (∀ o : Overflow, o.values fitting peakBars = some (fitting.values peakBars)) ∧
    (∀ o : Overflow, o.values narrow peakBars = some (narrow.values peakBars)) ∧
    (∀ o : Overflow, o.values broad peakBars = none) ∧
    trap.values longest peakBars = none ∧
    wrap.values longest peakBars = some (longest.overrunValues peakBars) ∧
    ∃ w ∈ longest.windows, wordCount < peakBars.length + w := by
  intro fitting longest narrow broad
  have held : 2 * peakBars.length ≤ wordCount := by decide
  have all : ∀ h ∈ [fitting, longest, narrow, broad],
      h.Accepted ∧ ∀ w ∈ h.windows, w < wordCount := by
    simp only [List.forall_mem_cons]
    refine ⟨⟨rfl, ?_⟩, ⟨rfl, ?_⟩, ⟨rfl, ?_⟩, ⟨rfl, ?_⟩, fun _ member => nomatch member⟩
    all_goals
      intro w member
      rw [List.mem_singleton.mp member]
      decide
  have fits : fitting.overruns peakBars = false := by decide +kernel
  have far : longest.overruns peakBars = true := by decide +kernel
  have room : ∀ r ∈ narrow.rooms, r < roomLimit := by
    intro r member
    rw [List.mem_singleton.mp member]
    decide
  have large : ∃ r ∈ broad.rooms, roomLimit ≤ r := ⟨_, List.mem_cons_self, Nat.le_refl _⟩
  obtain ⟨⟨one, oneWords⟩, ⟨two, twoWords⟩, ⟨three, threeWords⟩, ⟨four, fourWords⟩, -⟩ :=
    (by simpa only [List.forall_mem_cons] using all)
  exact ⟨all, held, fits, far, room, large,
    (values_on_words one oneWords held).1 fits (fun _ member => nomatch member),
    (values_on_words three threeWords held).1 rfl room,
    (values_on_words four fourWords held).2.1 large,
    (values_on_words two twoWords held).2.2 far⟩

/-- The sums of the longest channel are no words although its check lets it pass: a checked build
has no answer, and an unchecked one gives 3 for the last bar, in whose window 5 still is. -/
theorem longest_channel_overruns :
    let h : Handler Float := .onBars (.donchian (wordCount - 1) .upper)
    h.Accepted ∧ (∀ w ∈ h.windows, w < wordCount) ∧ h.values peakBars = [1, 5, 5] ∧
    trap.values h peakBars = none ∧ wrap.values h peakBars = some [1, 5, 3] := by
  intro h
  refine ⟨rfl, ?_, ?_, ?_, ?_⟩
  · intro w member
    rw [List.mem_singleton.mp member]
    decide
  all_goals decide +kernel

end Chartist
