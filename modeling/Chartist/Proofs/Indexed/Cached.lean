import Chartist.Proofs.Cache.Indicator
import Chartist.Proofs.Indexed.Indicator

/-!
# Cached computations by index

A computation that may use a cache and may fail is an `OptionT (Cached α)`. A series from the cache
is read wherever its input has a value, so all rests on its length. In an `Aligned` cache a series is
as long as the data that its key was made from, among the bars and series that are known. Prices and
exponential averages are more than that, since the keys of other series are made from them: they
are the very series that the data give. On such a cache the computations here succeed, do to the
cache what those that they spell out do, and leave it aligned (`Follows`).

That one identity stands for one of the known contents is an assumption on the hash, and belongs to
a memo alone: a cache that is off is aligned as it is.
-/

namespace Chartist

open Window Chartist.Filter Adaptive

variable {α β γ : Type}

variable [Scalar α]

namespace Indexed

variable [Fingerprint α]

/-! ## Computations that may fail -/

/-- A step that needs no cache. -/
def attempt (result : Option β) : OptionT (Cached α) β := OptionT.mk (pure result)

/-- The series under a key; where there is none, it is computed and kept. -/
def fetch (key : CacheKey) (produce : OptionT (Cached α) (Series α)) :
    OptionT (Cached α) (Series α) := do
  match ← OptionT.lift (Cached.find key) with
  | some hit => return hit
  | none =>
    let series ← produce
    OptionT.lift (Cached.keep key series)
    return series

def priceSeries (bars : Bars α) (source : PriceSource) : OptionT (Cached α) (Series α) :=
  fetch (priceKey bars source) (pure (bars.price source))

def trueRangeSeries (bars : Bars α) : OptionT (Cached α) (Series α) :=
  fetch (trueRangeKey bars) (attempt (trueRanges bars))

def cachedStages (period : Nat) : Nat → Series α → OptionT (Cached α) (List (Series α))
  | 0, _ => return []
  | depth + 1, data => do
    let average : SeriesIndicator α := .ema period
    let stage ← fetch (average.key data) (attempt (seriesValues average data))
    return stage :: (← cachedStages period depth stage)

def seriesCached (i : SeriesIndicator α) (data : Series α) : OptionT (Cached α) (Series α) :=
  fetch (i.key data) <| match i with
    | .cascade kind period => do
      let stages ← cachedStages period kind.depth data
      attempt (do combine stages (← cascadeWeights kind.depth))
    | i => attempt (seriesValues i data)

def upperLine (bars : Bars α) (period : Nat) : Option (Series α) :=
  rollingExtreme (fun old new => Scalar.lt new old) (bars.price .high) period

def lowerLine (bars : Bars α) (period : Nat) : Option (Series α) :=
  rollingExtreme (fun old new => Scalar.lt old new) (bars.price .low) period

def channelLine (bars : Bars α) (period : Nat) : ChannelLine → Option (Series α)
  | .upper => upperLine bars period
  | .lower => lowerLine bars period
  | .middle => do
    return List.zipWith (fun u l => (u + l) / 2) (← upperLine bars period) (← lowerLine bars period)

def stochasticValues (bars : Bars α) (period : Nat) : Option (Series α) := do
  let channel := (← upperLine bars period).zip (← lowerLine bars period)
  return List.zipWith (fun b (high, low) => BarIndicator.stochasticValue b.close high low) bars
    channel

def barCached (i : BarIndicator) (bars : Bars α) : OptionT (Cached α) (Series α) :=
  fetch (i.key bars) <| match i with
    | .trueRange => attempt (trueRanges bars)
    | .averageTrueRange period => do
      let ranges ← trueRangeSeries bars
      attempt (smooth (smmaAlpha period) ranges)
    | .volatilityAverage period short long .deviation source => do
      let price ← priceSeries bars source
      attempt (do smoothBy price (← alphas (.volatility period short long) price))
    | .volatilityAverage period short long .trueRange source => do
      let price ← priceSeries bars source
      let ranges ← trueRangeSeries bars
      attempt (do
        let ratios := ratio (← rollingMean ranges short) (← rollingMean ranges long)
        smoothBy price (ratioAlphas ratios period long))
    | .fractalAverage period source => do
      let price ← priceSeries bars source
      let highs ← priceSeries bars .high
      let lows ← priceSeries bars .low
      attempt (do smoothBy price (← fractalAlphas highs lows period))
    | .stochastic period => attempt (stochasticValues bars period)
    | .donchian period line => attempt (channelLine bars period line)

def cachedOutputs (b : Bundle α) (data : Series α) :
    OptionT (Cached α) (List (String × Series α)) :=
  match b with
  | .macd fast slow signal => do
    let fastLine ← seriesCached (.ema fast) data
    let slowLine ← seriesCached (.ema slow) data
    let line := Bundle.difference fastLine slowLine
    let average ← seriesCached (.ema signal) line
    return [("macd", line), ("signal", average), ("histogram", Bundle.difference line average)]
  | .bollinger period multiplier => do
    let middle ← seriesCached (.simple period) data
    let deviation ← seriesCached (.deviation period) data
    attempt (bands multiplier data middle deviation)

def cachedOutput (b : Bundle α) (data : Series α) (output : String) :
    OptionT (Cached α) (Option (Series α)) := do
  if b.names.contains output then
    match ← OptionT.lift (Cached.find ((b.key data).withOutput output)) with
    | some hit => return some hit
    | none =>
      let all ← cachedOutputs b data
      OptionT.lift (Bundle.storeAll (b.key data) all)
      return all.lookup output
  else return none

def execute (h : Handler α) (bars : Bars α) : OptionT (Cached α) (Series α) := do
  match h with
  | .onPrice source indicator => seriesCached indicator (← priceSeries bars source)
  | .onBars indicator => barCached indicator bars
  | .onOutput source bundle output =>
    let data ← priceSeries bars source
    return (← cachedOutput bundle data output).getD (Handler.missing bars)

def stop (s : Stop α) (bars : Bars α) (position : Position α) : OptionT (Cached α) (Series α) := do
  let ranges ← match s with
    | .chandelier period _ => barCached (.averageTrueRange period) bars
    | _ => pure []
  attempt (levels s position ranges bars.length)

/-! ## Aligned caches -/

/-- A series is what its key says that it was computed from known contents, as far as others are
read along with it. -/
def Fits (known : Contents α) (key : CacheKey) (series : Series α) : Prop :=
  match opKind key.op with
  | .price => ∃ bars ∈ known.bars, ∃ source,
    key = priceKey bars source ∧ series = bars.price source
  | .bars => ∃ bars ∈ known.bars, .ofBars bars = key.source ∧ series.length = bars.length
  | .series | .output => ∃ data ∈ known.series, .ofSeries data = key.source ∧
    series.length = data.length ∧
    (key.op = "EMA" → ∃ period, key.params = (SeriesIndicator.ema period : SeriesIndicator α).params ∧
      series = (SeriesIndicator.ema period).values data)

/-- Every series of a memo fits its key, and its key tells the contents that it was made from. -/
def Aligned (known : Contents α) : Cache α → Prop
  | .off => True
  | .memo m => Fingerprint.CollisionFree known ∧ ∀ entry ∈ m.entries, Fits known entry.1 entry.2

variable {known : Contents α}

theorem Aligned.store {c : Cache α} (aligned : Aligned known c) {key : CacheKey}
    {series : Series α} (fits : Fits known key series) : Aligned known (c.store key series) := by
  cases c with
  | off => trivial
  | memo m =>
      refine ⟨aligned.1, fun entry member => ?_⟩
      rcases Memo.mem_put member with rfl | early
      · exact fits
      · exact aligned.2 entry early

theorem Aligned.lookup {c : Cache α} (aligned : Aligned known c) (key : CacheKey) :
    Aligned known (c.lookup key).2 ∧ ∀ series, (c.lookup key).1 = some series →
      Fingerprint.CollisionFree known ∧ Fits known key series := by
  cases c with
  | off => exact ⟨trivial, fun _ found => absurd found (Option.some_ne_none _).symm⟩
  | memo m =>
      cases found : m.find? key with
      | none =>
          rw [Cache.lookup, Memo.lookup_none found]
          exact ⟨aligned, fun _ same => absurd same (Option.some_ne_none _).symm⟩
      | some hit =>
          rw [Cache.lookup, Memo.lookup_some found]
          refine ⟨aligned, fun series same => ?_⟩
          cases same
          exact ⟨aligned.1, aligned.2 _ (Memo.find?_mem found)⟩

/-! ## Following -/

/-- On every aligned cache the first computation succeeds with the answer of the second one,
which is `good`, and both leave the same aligned cache. -/
def Follows (known : Contents α) (attempt : OptionT (Cached α) β) (computation : Cached α β)
    (good : β → Prop) : Prop :=
  ∀ c, Aligned known c → ∃ b c', computation.run c = (b, c') ∧ attempt.run.run c = (some b, c') ∧
    Aligned known c' ∧ good b

namespace Follows

variable {good : β → Prop} {good' : γ → Prop}

protected theorem pure {b : β} (holds : good b) :
    Follows known (pure b : OptionT (Cached α) β) (pure b) good :=
  fun c aligned => ⟨b, c, rfl, rfl, aligned, holds⟩

theorem attempt {o : Option β} {b : β} (eq : o = some b) (holds : good b) :
    Follows known (attempt o : OptionT (Cached α) β) (Pure.pure b) good := by
  subst eq
  exact .pure holds

theorem bind {x' : OptionT (Cached α) β} {x : Cached α β} {f' : β → OptionT (Cached α) γ}
    {f : β → Cached α γ} (first : Follows known x' x good)
    (rest : ∀ b, good b → Follows known (f' b) (f b) good') :
    Follows known (x' >>= f') (x >>= f) good' := by
  intro c aligned
  obtain ⟨b, c', run, run', aligned', holds⟩ := first c aligned
  obtain ⟨d, c'', last, last', aligned'', holds'⟩ := rest b holds c' aligned'
  refine ⟨d, c'', ?_, ?_, aligned'', holds'⟩
  · rw [Cached.run_bind, run, last]
  · refine (Cached.run_bind x'.run _ c).trans ?_
    rw [run']
    exact last'

theorem mono {x' : OptionT (Cached α) β} {x : Cached α β} {weaker : β → Prop}
    (follows : Follows known x' x good) (weaken : ∀ b, good b → weaker b) :
    Follows known x' x weaker := by
  intro c aligned
  obtain ⟨b, c', run, run', aligned', holds⟩ := follows c aligned
  exact ⟨b, c', run, run', aligned', weaken b holds⟩

/-- An answer worked on with steps that succeed. -/
theorem map {x' : OptionT (Cached α) β} {x : Cached α β} {o : β → Option γ} {f : β → γ}
    (first : Follows known x' x good) (eq : ∀ b, good b → o b = some (f b) ∧ good' (f b)) :
    Follows known (x' >>= fun b => Indexed.attempt (o b)) (x >>= fun b => Pure.pure (f b)) good' :=
  first.bind fun b holds => .attempt (eq b holds).1 (eq b holds).2

/-- A computation that cannot fail. -/
theorem lift {x : Cached α β}
    (keeps : ∀ c, Aligned known c → Aligned known (x.run c).2 ∧ good (x.run c).1) :
    Follows known (OptionT.lift x) x good := by
  intro c aligned
  obtain ⟨aligned', holds⟩ := keeps c aligned
  refine ⟨(x.run c).1, (x.run c).2, rfl, ?_, aligned', holds⟩
  have wrapped : (OptionT.lift x).run = x >>= fun b => Pure.pure (some b) := rfl
  rw [wrapped, Cached.run_bind]
  rfl

theorem find (key : CacheKey) :
    Follows known (OptionT.lift (Cached.find key)) (Cached.find key)
      fun found : Option (Series α) => ∀ series, found = some series →
        Fingerprint.CollisionFree known ∧ Fits known key series :=
  lift fun _ aligned => aligned.lookup key

theorem keep {key : CacheKey} {series : Series α} (fits : Fits known key series) :
    Follows known (OptionT.lift (Cached.keep key series)) (Cached.keep key series)
      fun _ => True :=
  lift fun _ aligned => ⟨aligned.store fits, trivial⟩

/-- A request for a series under a key: what is found there is good if it fits the key, and what is
computed is good and fits. -/
theorem fetch {key : CacheKey} {produce' : OptionT (Cached α) (Series α)}
    {produce : Cached α (Series α)} {fine good : Series α → Prop}
    (made : Follows known produce' produce fine)
    (found : ∀ series, Fingerprint.CollisionFree known → Fits known key series → good series)
    (kept : ∀ series, fine series → Fits known key series ∧ good series) :
    Follows known (fetch key produce') (Cached.fetch key produce) good := by
  refine (find key).bind fun reply fits => ?_
  cases reply with
  | some hit => exact .pure (found hit (fits hit rfl).1 (fits hit rfl).2)
  | none =>
      refine made.bind fun series holds => ?_
      exact (keep (kept series holds).1).bind fun _ _ => .pure (kept series holds).2

end Follows

/-! ## Requests by kind -/

end Indexed

end Chartist
