import Chartist.Proofs.Exact.Rsi
import Chartist.Proofs.Exact.Stop

/-!
# True ranges, and the stop that is a multiple of them behind

On a bar whose low is at most its high, the greatest of the three distances is the whole way from
the lower of low and close before to the higher of high and close before (`max_distances`), so a
true range is not below zero. Smoothing with a constant part of the way is an adaptive average whose
factors are all the same (`smooth_eq_smoothBy`), so the average of the true ranges stays between
those seen. A candidate level is then no better than the extreme it is found from, and the extremes
of later bars are no worse, so no level overtakes the extreme of its bar. Main statement:
`chandelier_stays_behind`.
-/

namespace Chartist

open Chartist.Filter Position Scalar

/-! ## True ranges -/

/-- Wherever a price is, its greater distance from two ends takes in the way between them. -/
theorem max_distances {K : Type} [Field K] [LinearOrder K] [IsStrictOrderedRing K] {low high : K}
    (ordered : low ≤ high) (c : K) :
    max (max (high - low) |high - c|) |low - c| = max high c - min low c := by
  rcases le_total c low with under | above
  · -- the way down to the price takes in the range
    rw [max_eq_left (under.trans ordered), min_eq_right under, abs_of_nonneg (sub_nonneg.mpr under),
      abs_of_nonneg (sub_nonneg.mpr (under.trans ordered)),
      max_eq_right (sub_le_sub_left under high), max_eq_left (sub_le_sub_right ordered c)]
  · rw [min_eq_left above, abs_of_nonpos (sub_nonpos.mpr above), neg_sub]
    rcases le_total c high with within | beyond
    · rw [max_eq_left within, abs_of_nonneg (sub_nonneg.mpr within),
        max_eq_left (sub_le_sub_left above high), max_eq_left (sub_le_sub_right within low)]
    · rw [max_eq_right beyond, abs_of_nonpos (sub_nonpos.mpr beyond), neg_sub,
        max_eq_right (max_le (sub_le_sub_right beyond low) (sub_le_sub_left ordered c))]

variable {α : Type} [Scalar α]

/-- A bar of numbers whose low is at most its high. -/
structure Bar.Spanning (bar : Bar α) : Prop extends bar.Ranged where
  ordered : le bar.low bar.high = true

theorem trueRangesFrom_succ {start : Option α} {bars : Bars α} {i : Nat} {before bar : Bar α}
    (first : bars[i]? = some before) (second : bars[i + 1]? = some bar) :
    (Bars.trueRangesFrom start bars)[i + 1]? = some (bar.trueRange (some before.close)) := by
  induction i generalizing start bars with
  | zero =>
      match bars, first, second with
      | _ :: _ :: _, rfl, rfl => rfl
  | succ i ih =>
      cases bars with
      | nil => cases first
      | cons b rest => exact ih first second

section TrueRanges

variable {K : Type} [Field K] [LinearOrder K] {num : K → α} (exact : Exact num)
  (ordinary : Ordinary num)
include exact ordinary

theorem minNum_num (x y : K) : minNum (num x) (num y) = num (min x y) := by
  rw [minNum, ordinary.isNaN, exact.lt]
  by_cases less : y < x
  · simp only [Bool.false_eq_true, if_false, decide_eq_true less, if_true, min_eq_right less.le]
  · simp only [Bool.false_eq_true, if_false, less, decide_false, min_eq_left (not_lt.mp less)]

omit ordinary in
theorem Bar.Spanning.numbers {bar : Bar α} (spanning : bar.Spanning) :
    ∃ high low close : K, bar.high = num high ∧ bar.low = num low ∧ bar.close = num close ∧
      low ≤ high := by
  obtain ⟨high, isHigh⟩ := (exact.isFinite _).mp spanning.high
  obtain ⟨low, isLow⟩ := (exact.isFinite _).mp spanning.low
  obtain ⟨close, isClose⟩ := (exact.isFinite _).mp spanning.close
  have ordered := spanning.ordered
  rw [isHigh, isLow, exact.le, decide_eq_true_eq] at ordered
  exact ⟨high, low, close, isHigh, isLow, isClose, ordered⟩

variable [IsStrictOrderedRing K]

/-- Behind a close, the true range is a number: the way between the ends that take in the close. -/
theorem trueRange_num {bar : Bar α} {high low c : K} (isHigh : bar.high = num high)
    (isLow : bar.low = num low) (ordered : low ≤ high) :
    bar.trueRange (some (num c)) = num (max high c - min low c) := by
  simp only [Bar.trueRange, Bar.range, isHigh, isLow, exact.sub, ordinary.abs,
    Rsi.maxNum_num exact ordinary, max_distances ordered]

theorem nonneg_trueRange {bar : Bar α} (spanning : bar.Spanning) {before : Option α}
    (finiteBefore : ∀ close ∈ before, isFinite close = true) :
    le 0 (bar.trueRange before) = true := by
  obtain ⟨high, low, _, isHigh, isLow, -, ordered⟩ := spanning.numbers exact
  cases before with
  | none =>
      rw [Bar.trueRange, Bar.range, isHigh, isLow, exact.sub, exact.zero, exact.le,
        decide_eq_true_eq]
      exact sub_nonneg.mpr ordered
  | some close =>
      obtain ⟨c, rfl⟩ := (exact.isFinite close).mp (finiteBefore close rfl)
      rw [trueRange_num exact ordinary isHigh isLow ordered, exact.zero, exact.le,
        decide_eq_true_eq, sub_nonneg]
      exact (min_le_left low c).trans (ordered.trans (le_max_left high c))

theorem nonneg_trueRangesFrom {bars : Bars α} {before : Option α}
    (finiteBefore : ∀ close ∈ before, isFinite close = true)
    (spanning : ∀ bar ∈ bars, bar.Spanning) :
    ∀ x ∈ Bars.trueRangesFrom before bars, le 0 x = true := by
  induction bars generalizing before with
  | nil => exact fun x member => absurd member List.not_mem_nil
  | cons bar rest ih =>
      obtain ⟨here, later⟩ := List.forall_mem_cons.mp spanning
      have finiteClose : ∀ close ∈ some bar.close, isFinite close = true := by
        rintro close ⟨⟩
        exact here.close
      exact List.forall_mem_cons.mpr
        ⟨nonneg_trueRange exact ordinary here finiteBefore, ih finiteClose later⟩

end TrueRanges

/-! ## Their average -/

theorem smoothFrom_eq_smoothByFrom (alpha level : α) (data : List α) :
    smoothFrom alpha level data = smoothByFrom level data (List.replicate data.length alpha) := by
  induction data generalizing level with
  | nil => rfl
  | cons x rest ih =>
      rw [smoothFrom, ih, List.length_cons, List.replicate_succ, smoothByFrom]

/-- A constant part of the way is the same factor throughout. -/
theorem smooth_eq_smoothBy (alpha : α) (data : List α) :
    smooth alpha data = smoothBy data (List.replicate data.length alpha) := by
  cases data with
  | nil => rfl
  | cons first rest =>
      rw [smooth, smoothFrom_eq_smoothByFrom, List.length_cons, smoothBy, List.drop_replicate,
        Nat.add_sub_cancel]

section Average

variable {K : Type} [Field K] [LinearOrder K] [IsStrictOrderedRing K] {num : K → α}
  (exact : Exact num)
include exact

theorem tracks_smmaAlpha {data : List α} (finite : ∀ x ∈ data, isFinite x = true) {period : Nat}
    (positive : 0 < period) : Tracks 0 data (smooth (smmaAlpha period) data) := by
  have count : (0 : K) < period := Nat.cast_pos.mpr positive
  have whole : (1 : K) / period ≤ 1 := (div_le_one count).mpr (by exact_mod_cast positive)
  have factors : Factors (num (0 : K)) data.length 0
      (List.replicate data.length (smmaAlpha period)) := by
    refine ⟨List.length_replicate, ?_, fun i early => absurd early (Nat.not_lt_zero i)⟩
    intro a member
    rw [List.eq_of_mem_replicate member, exact.smmaAlpha positive, exact.one, exact.within]
    exact ⟨by positivity, whole⟩
  rw [smooth_eq_smoothBy]
  exact exact.tracks_smoothBy finite le_rfl factors

omit [IsStrictOrderedRing K] in
/-- What stays between values that are not below zero is not either. -/
theorem Tracks.nonneg {lookback : Nat} {data output : List α} (tracks : Tracks lookback data output)
    (finite : ∀ x ∈ data, isFinite x = true) (nonneg : ∀ x ∈ data, le 0 x = true) :
    ∀ y ∈ output, le 0 y = true := by
  intro y member
  obtain ⟨i, here⟩ := List.mem_iff_getElem?.mp member
  obtain ⟨lo, low, hi, high, inside⟩ := tracks.between i y here
  have above := nonneg lo (List.mem_of_mem_take low)
  obtain ⟨l, rfl⟩ := (exact.isFinite lo).mp (finite lo (List.mem_of_mem_take low))
  obtain ⟨h, rfl⟩ := (exact.isFinite hi).mp (finite hi (List.mem_of_mem_take high))
  obtain ⟨k, rfl, least, -⟩ := exact.exists_of_within inside
  rw [exact.zero, exact.le, decide_eq_true_eq] at above ⊢
  exact above.trans least

end Average

/-! ## The stop -/

/-- The true ranges of bars: high less low on the first one, and on each other one the way between
the ends that takes in the close before it. -/
structure RangesTrue (bars : Bars α) (ranges : Series α) : Prop where
  length : ranges.length = bars.length
  first : ∀ bar, bars[0]? = some bar → ranges[0]? = some (bar.high - bar.low)
  later : ∀ i before bar, bars[i]? = some before → bars[i + 1]? = some bar →
    ranges[i + 1]? = some (maxNum bar.high before.close - minNum bar.low before.close)

section Stops

variable {K : Type} [Field K] [LinearOrder K] [IsStrictOrderedRing K] {num : K → α}
  (exact : Exact num) (ordinary : Ordinary num)
include exact

namespace Stop

/-- A level that is no less than nothing behind a price is no better. -/
theorem noWorse_behind (long : Bool) (price : K) {distance : K} (nonneg : 0 ≤ distance) :
    noWorse long (num price) (behind long (num price) (num distance)) = true := by
  rw [behind_num exact, noWorse_num exact, decide_eq_true_eq]
  cases long with
  | false =>
      simp only [worth, Bool.false_eq_true, if_false]
      linarith
  | true =>
      simp only [worth, if_true]
      linarith

/-- A candidate is no better than the extreme it is found from. -/
theorem noWorse_candidate_chandelier {period : Nat} {multiplier : K} (positive : 0 < multiplier)
    {bars : Bars α}
    (finite : ∀ x ∈ (chandelier period (num multiplier)).ranges bars, isFinite x = true)
    (nonneg : ∀ x ∈ (chandelier period (num multiplier)).ranges bars, le 0 x = true)
    {position : Position α} {i : Nat} {extreme level : α}
    (finiteExtreme : isFinite extreme = true) (known : position.favorableExtreme i = some extreme)
    (isLevel : (chandelier period (num multiplier)).candidate bars position i = some level) :
    noWorse position.long extreme level = true := by
  rw [candidate, known] at isLevel
  obtain ⟨range, found, rfl⟩ := Option.map_eq_some_iff.mp isLevel
  have member := List.mem_of_getElem? found
  have above := nonneg range member
  obtain ⟨x, rfl⟩ := (exact.isFinite extreme).mp finiteExtreme
  obtain ⟨r, rfl⟩ := (exact.isFinite range).mp (finite range member)
  rw [exact.zero, exact.le, decide_eq_true_eq] at above
  rw [exact.mul]
  exact noWorse_behind exact position.long x (mul_nonneg positive.le above)

end Stop

include ordinary

theorem rangesTrue {bars : Bars α} (spanning : ∀ bar ∈ bars, bar.Spanning) :
    RangesTrue bars bars.trueRanges := by
  refine ⟨Bars.causal_trueRanges.length bars, ?_, ?_⟩
  · intro bar here
    match bars, here with
    | _ :: _, rfl => rfl
  · intro i before bar first second
    obtain ⟨high, low, _, isHigh, isLow, -, ordered⟩ :=
      (spanning bar (List.mem_of_getElem? second)).numbers exact
    obtain ⟨_, _, c, -, -, isClose, -⟩ :=
      (spanning before (List.mem_of_getElem? first)).numbers exact
    rw [Bars.trueRanges, trueRangesFrom_succ first second, isClose,
      trueRange_num exact ordinary isHigh isLow ordered, isHigh, isLow,
      Rsi.maxNum_num exact ordinary, minNum_num exact ordinary, exact.sub]

/-- The average true range stays between true ranges seen, and none of them is below zero. -/
theorem tracks_averageTrueRange {bars : Bars α} (spanning : ∀ bar ∈ bars, bar.Spanning)
    {period : Nat} (positive : 0 < period) :
    Tracks 0 bars.trueRanges ((BarIndicator.averageTrueRange period).values bars) ∧
      ∀ x ∈ (BarIndicator.averageTrueRange period).values bars, le 0 x = true := by
  have nothing : ∀ close ∈ (none : Option α), isFinite close = true := nofun
  have finite : ∀ x ∈ bars.trueRanges, isFinite x = true :=
    Stop.finite_trueRangesFrom exact ordinary nothing fun bar member =>
      (spanning bar member).toRanged
  have nonneg : ∀ x ∈ bars.trueRanges, le 0 x = true :=
    nonneg_trueRangesFrom exact ordinary nothing spanning
  have tracks := tracks_smmaAlpha exact finite positive
  exact ⟨tracks, tracks.nonneg exact finite nonneg⟩

/-- Where the favourable extreme is known, the level is no better than it. -/
theorem Stop.noWorse_level_chandelier {bars : Bars α} (spanning : ∀ bar ∈ bars, bar.Spanning)
    {period : Nat} {multiplier : α}
    (accepted : (Stop.chandelier period multiplier).validate = .ok ()) {entryPrice : α}
    (finiteEntry : isFinite entryPrice = true) (entryBar : Nat) (long : Bool) {highs lows : List α}
    (finiteSide : ∀ x ∈ sidePrices long highs lows, isFinite x = true) {i : Nat} {extreme : α}
    (inside : i < bars.length)
    (known : (Position.new entryPrice entryBar long highs lows).favorableExtreme i =
      some extreme) :
    ∃ level, ((Stop.chandelier period multiplier).values bars
        (Position.new entryPrice entryBar long highs lows))[i]? = some level ∧
      noWorse long extreme level = true := by
  have ranged : ∀ bar ∈ bars, bar.Ranged := fun bar member => (spanning bar member).toRanged
  have finiteExtreme {j : Nat} {x : α}
      (isExtreme : (Position.new entryPrice entryBar long highs lows).favorableExtreme j = some x) :
      isFinite x = true := finite_extreme exact ordinary finiteEntry finiteSide isExtreme
  obtain ⟨positive, m, above, rfl⟩ := sound_of_validate exact accepted
  have ratchets := ratchets_levels exact ordinary accepted ranged finiteEntry entryBar long
    finiteSide
  obtain ⟨level, isLevel, best⟩ := ratchets.best i inside (by rw [known]; rfl)
  refine ⟨level, isLevel, ?_⟩
  -- the level is a candidate of some bar so far, and the extreme there was no better
  obtain ⟨j, -, before, isCandidate⟩ := best.attained
  obtain ⟨older, knownOlder, -⟩ := Option.bind_eq_some_iff.mp isCandidate
  have moved : noWorse long extreme older = true :=
    noWorse_extreme exact ordinary finiteEntry finiteSide before knownOlder known
  have behind : noWorse long older level = true :=
    noWorse_candidate_chandelier exact above
      (finite_averageTrueRange exact ordinary ranged positive)
      (tracks_averageTrueRange exact ordinary spanning positive).2 (finiteExtreme knownOlder)
      knownOlder isCandidate
  have finiteLevel : isFinite level = true :=
    finite_candidate exact ordinary ranged (sound_of_validate exact accepted) finiteEntry
      (fun x isExtreme => finiteExtreme isExtreme) isCandidate
  exact noWorse_trans exact (finiteExtreme known) (finiteExtreme knownOlder) finiteLevel moved
    behind

/-- True ranges, their average and the stop behind, on bars whose lows are at most their highs. The
ranges are those of `RangesTrue`; the average of every period stays between ranges seen, so it is
not below zero; and wherever the favourable extreme of a position is known, the level of the stop is
no better than it: at most the extreme of a long position, at least that of a short one. -/
theorem chandelier_stays_behind [Fingerprint α] {bars : Bars α}
    (spanning : ∀ bar ∈ bars, bar.Spanning) :
    RangesTrue bars bars.trueRanges ∧
    (∀ period : Nat, 0 < period →
      Tracks 0 bars.trueRanges ((BarIndicator.averageTrueRange period).values bars) ∧
      ∀ x ∈ (BarIndicator.averageTrueRange period).values bars, le 0 x = true) ∧
    ∀ (period : Nat) (multiplier : α), (Stop.chandelier period multiplier).validate = .ok () →
      ∀ (entryPrice : α) (entryBar : Nat) (long : Bool) (highs lows : List α),
        isFinite entryPrice = true → (∀ x ∈ highs, isFinite x = true) →
        (∀ x ∈ lows, isFinite x = true) →
        let position := Position.new entryPrice entryBar long highs lows
        ∀ (i : Nat) (extreme : α), i < bars.length →
          position.favorableExtreme i = some extreme →
          ∃ level,
            ((Stop.chandelier period multiplier).compute bars position).uncached[i]? = some level ∧
            noWorse long extreme level = true := by
  refine ⟨rangesTrue exact ordinary spanning, ?_, ?_⟩
  · intro period positive
    exact tracks_averageTrueRange exact ordinary spanning positive
  · intro period multiplier accepted entryPrice entryBar long highs lows finiteEntry finiteHighs
      finiteLows position i extreme inside known
    have finiteSide : ∀ x ∈ sidePrices long highs lows, isFinite x = true := by
      cases long
      · exact finiteLows
      · exact finiteHighs
    rw [Stop.uncached_compute]
    exact Stop.noWorse_level_chandelier exact ordinary spanning accepted finiteEntry entryBar long
      finiteSide inside known

end Stops

/-- A gap upwards and a fall on the last of three bars, whose range moves its candidate below that
of the bar before: the level stays, still below the extreme. -/
theorem chandelier_stays_behind_ratio :
    let bars : Bars Ratio :=
      [⟨0, .of 10, .of 12, .of 9, .of 11, .of 5⟩, ⟨60, .of 14, .of 15, .of 13, .of 14, .of 5⟩,
        ⟨120, .of 14, .of 14, .of 6, .of 7, .of 5⟩]
    let s : Stop Ratio := .chandelier 2 (.of 2)
    let position := Position.new (.of 10) 0 true (bars.price .high) (bars.price .low)
    Exact Ratio.of ∧ Ordinary Ratio.of ∧ (∀ bar ∈ bars, bar.Spanning) ∧ s.validate = .ok () ∧
    isFinite (Ratio.of 10) = true ∧ (∀ x ∈ bars.price .high, isFinite x = true) ∧
    (∀ x ∈ bars.price .low, isFinite x = true) ∧
    bars.trueRanges = [.of 3, .of 4, .of 8] ∧ RangesTrue bars bars.trueRanges ∧ 0 < 2 ∧
    (BarIndicator.averageTrueRange 2).values bars = [.of 3, .of (7 / 2), .of (23 / 4)] ∧
    Tracks 0 bars.trueRanges ((BarIndicator.averageTrueRange 2).values bars) ∧
    position.favorableExtreme 2 = some (.of 15) ∧
    (s.compute bars position).uncached = [.of 6, .of 8, .of 8] ∧
    noWorse true (Ratio.of 15) (.of 8) = true := by
  intro bars s position
  have spanning : ∀ bar ∈ bars, bar.Spanning := by
    intro bar member
    simp only [bars, List.mem_cons, List.not_mem_nil, or_false] at member
    rcases member with rfl | rfl | rfl <;> exact ⟨⟨rfl, rfl, rfl⟩, by decide +kernel⟩
  have finiteHighs : ∀ x ∈ bars.price .high, isFinite x = true := by decide
  have finiteLows : ∀ x ∈ bars.price .low, isFinite x = true := by decide
  have positive : isPositive (Ratio.of 2) = true := by decide +kernel
  have accepted : s.validate = .ok () := by
    simp only [s, Stop.validate, positive]
    rfl
  have known : position.favorableExtreme 2 = some (.of 15) := by decide +kernel
  have levels : (s.compute bars position).uncached = [.of 6, .of 8, .of 8] := by
    rw [Stop.uncached_compute]
    decide +kernel
  obtain ⟨ranges, averages, stops⟩ := chandelier_stays_behind Ratio.exact Ratio.ordinary spanning
  obtain ⟨level, isLevel, behind⟩ := stops 2 (.of 2) accepted (.of 10) 0 true _ _ rfl finiteHighs
    finiteLows 2 (.of 15) (by decide) known
  obtain rfl : level = .of 8 :=
    Option.some_injective _ (isLevel.symm.trans (congrArg (·[2]?) levels))
  exact ⟨Ratio.exact, Ratio.ordinary, spanning, accepted, rfl, finiteHighs, finiteLows,
    by decide +kernel, ranges, Nat.two_pos, by decide +kernel, (averages 2 Nat.two_pos).1, known,
    levels, behind⟩

end Chartist
