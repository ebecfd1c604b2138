import Chartist.Proofs.Cache.Uncached
import Chartist.Proofs.Catalog
import Chartist.Proofs.Causal.Filter
import Chartist.Proofs.Whole

/-!
# No indicator looks ahead

Every indicator is causal in what it reads, and every price is causal in the bars, so a
handler answers one value for each bar and never revises it (`Handler.execute_causal`). The
only parameter that this depends on is the depth of a cascade, which is at least one once it
has been checked.
-/

namespace Chartist

open Window Chartist.Filter Adaptive

variable {α : Type} [Scalar α]

/-! ## Bars -/

theorem Bars.causal_price (source : PriceSource) :
    Causal fun bars : Bars α => bars.price source :=
  .map fun bar : Bar α => bar.price source

theorem Bars.causal_trueRanges : Causal (Bars.trueRanges : Bars α → Series α) :=
  .of_step (g := Bars.trueRangesFrom) (fun before b => b.trueRange before)
    (fun _ b => some b.close) (fun _ => rfl) (fun _ _ _ => rfl) none

/-! ## Indicators on series -/

theorem AverageMethod.causal_apply (method : AverageMethod) (period : Nat) :
    Causal (method.apply period : List α → List α) := by
  cases method with
  | simple => exact .rolling mean period
  | exponential | smoothed => exact .smooth _
  | linear => exact .rolling (Kernel.average .linear) period

/-- A cascade that was checked has a stage. -/
theorem Filter.Cascade.depth_pos {c : Cascade}
    (valid : (c.validate : Except (StudyError α) Unit) = .ok ()) : 0 < c.depth := by
  cases c with
  | double | triple => exact Nat.succ_pos _
  | deep depth =>
      obtain ⟨_, checked, -⟩ := exists_of_bind_ok valid
      unfold checkCount at checked
      split at checked
      next inside => exact inside.1
      next => cases checked

theorem SeriesIndicator.causal_values {i : SeriesIndicator α} (valid : i.validate = .ok ()) :
    Causal i.values := by
  cases i with
  | simple period => exact .rolling mean period
  | exponential period alpha => exact .smooth alpha
  | smoothed period => exact .smooth _
  | weighted kernel period => exact .rolling kernel.average period
  | median period => exact .rolling Window.median period
  | cascade kind period =>
      obtain ⟨_, deep, -⟩ := exists_of_bind_ok valid
      exact causal_combine_stages _ (Cascade.depth_pos deep) _
  | average method period => exact method.causal_apply period
  | efficiencyAverage period fast slow =>
      exact Causal.id.smoothBy (Rule.causal_alphas _)
  | momentumAverage period length =>
      exact Causal.id.smoothBy (Rule.causal_alphas _)
  | pole design period => exact (design.filter period).causal_apply
  | laguerre gamma => exact (Causal.map Laguerre.filter).comp (Laguerre.causal_pass gamma)
  | kalman processNoise measurementNoise => exact Kalman.causal_levels _ _
  | rsi period => exact Rsi.causal_values period
  | laguerreRsi gamma => exact (Causal.map Laguerre.strength).comp (Laguerre.causal_pass gamma)
  | momentum period => exact (Causal.map (· * 100)).comp (causal_momentum period)
  | rank window percent => exact .ranks window percent
  | deviation period => exact .rolling Window.deviation period

/-! ## Indicators on bars -/

theorem BarIndicator.causal_channelLine (period : Nat) (line : ChannelLine) :
    Causal fun bars : Bars α => channelLine bars period line := by
  have upper : Causal fun bars : Bars α => upperLine bars period :=
    (Causal.extremesFrom _ period [] 0).comp (Bars.causal_price .high)
  have lower : Causal fun bars : Bars α => lowerLine bars period :=
    (Causal.extremesFrom _ period [] 0).comp (Bars.causal_price .low)
  cases line with
  | upper => exact upper
  | lower => exact lower
  | middle => exact upper.zipWith lower _

theorem BarIndicator.causal_values (i : BarIndicator) :
    Causal (i.values : Bars α → Series α) := by
  cases i with
  | trueRange => exact Bars.causal_trueRanges
  | averageTrueRange period => exact (Causal.smooth _).comp Bars.causal_trueRanges
  | volatilityAverage period short long measure source =>
      have price := Bars.causal_price (α := α) source
      refine price.smoothBy ?_
      cases measure with
      | deviation => exact (Rule.volatility period short long).causal_alphas.comp price
      | trueRange =>
          exact (causal_ratioAlphas period long).comp
            (((Causal.rolling mean short).zipWith (.rolling mean long) _).comp
              Bars.causal_trueRanges)
  | fractalAverage period source =>
      exact (Bars.causal_price source).smoothBy
        (causal_fractalAlphas (Bars.causal_price .high) (Bars.causal_price .low) period)
  | stochastic period =>
      have channel := (causal_channelLine (α := α) period .upper).zip
        (causal_channelLine period .lower)
      exact Causal.id.zipWith channel _
  | donchian period line => exact causal_channelLine period line

/-! ## Bundles and handlers -/

/-- Each output of a bundle is causal. -/
theorem Bundle.causal_output {b : Bundle α} {output : String} (known : output ∈ b.names) :
    ∃ f : Series α → Series α, Causal f ∧
      ∀ data, (b.outputs data).lookup output = some (f data) := by
  cases b with
  | macd fast slow signal =>
      have line := (Causal.smooth (emaAlpha (α := α) fast)).zipWith (.smooth (emaAlpha slow))
        (· - ·)
      have average := (Causal.smooth (emaAlpha signal)).comp line
      simp only [names, List.mem_cons, List.not_mem_nil, or_false] at known
      rcases known with rfl | rfl | rfl
      · exact ⟨_, line, fun _ => rfl⟩
      · exact ⟨_, average, fun _ => rfl⟩
      · exact ⟨_, line.zipWith average (· - ·), fun _ => rfl⟩
  | bollinger period multiplier =>
      have middle : Causal fun data : Series α => rollingMean data period := .rolling _ _
      have deviation : Causal fun data : Series α => rollingDeviation data period :=
        .rolling _ _
      have upper := middle.zipWith deviation fun m s => m + multiplier * s
      have lower := middle.zipWith deviation fun m s => m - multiplier * s
      simp only [names, List.mem_cons, List.not_mem_nil, or_false] at known
      rcases known with rfl | rfl | rfl | rfl | rfl
      · exact ⟨_, upper, fun _ => rfl⟩
      · exact ⟨_, middle, fun _ => rfl⟩
      · exact ⟨_, lower, fun _ => rfl⟩
      · exact ⟨_, Causal.id.zipWith (upper.zip lower) _, fun _ => rfl⟩
      · exact ⟨_, middle.zipWith (upper.zip lower) _, fun _ => rfl⟩

theorem Handler.causal_values {h : Handler α} (accepted : h.Accepted) : Causal h.values := by
  cases h with
  | onPrice source i =>
      exact (SeriesIndicator.causal_values accepted).comp (Bars.causal_price source)
  | onBars i => exact i.causal_values
  | onOutput source b output =>
      obtain ⟨f, causal, found⟩ := Bundle.causal_output accepted.2
      have answers : values (.onOutput source b output) =
          fun bars : Bars α => f (bars.price source) := by
        funext bars
        simp only [values, found, Option.getD_some]
      rw [answers]
      exact causal.comp (Bars.causal_price source)

variable [Fingerprint α]

/-- A handler that the catalog builds answers one value for each bar. What it answers to the
first bars are the first values of its answer to all bars, so a value never changes when more
bars follow. -/
theorem Handler.execute_causal {name : String} {config : Json α} {h : Handler α}
    (built : Catalog.create name config = .ok h) (bars : Bars α) :
    (h.execute bars).uncached.length = bars.length ∧
      (∀ n, (h.execute (bars.take n)).uncached = (h.execute bars).uncached.take n) ∧
      ∀ later, (h.execute bars).uncached <+: (h.execute (bars ++ later)).uncached := by
  have causal := causal_values (Catalog.accepted_of_create built)
  simp only [uncached_execute]
  exact ⟨causal.length bars, causal.take bars, causal.isPrefix bars⟩

/-- The middle of the channel over two bars. -/
theorem Handler.execute_causal_whole :
    ∃ h : Handler Whole,
      Catalog.create "donchian" (.obj [("period", .int 2), ("output", .str "middle")]) = .ok h ∧
      (h.execute Whole.twoBars).uncached.length = Whole.twoBars.length ∧
      (∀ n, (h.execute (Whole.twoBars.take n)).uncached =
        (h.execute Whole.twoBars).uncached.take n) ∧
      ∀ later, (h.execute Whole.twoBars).uncached <+:
        (h.execute (Whole.twoBars ++ later)).uncached :=
  have built : Catalog.create "donchian"
      (.obj [("period", .int 2), ("output", .str "middle")] : Json Whole) =
        .ok (.onBars (.donchian 2 .middle)) := rfl
  ⟨_, built, execute_causal built _⟩

end Chartist
