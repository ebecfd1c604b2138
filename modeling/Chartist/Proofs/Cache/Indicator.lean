import Chartist.Proofs.Cache.Visit
import Chartist.Session

/-!
# What the indicators ask of a cache

Every computation of the library that uses a cache, with the nodes it asks for and its answer
(`Visits`): the answer is the one computed without a cache, and what a node needs is what its
computation asks for. `Evaluation.visits` sums this up for whatever a session can ask.
-/

namespace Chartist

open Window Chartist.Filter

variable {α β γ : Type} [Scalar α] [Fingerprint α]

namespace Visits

/-- Asking for the one series of a node. -/
theorem fetch {n : Node α} {k : CacheKey} {s : Series α}
    (results : n.results = [(k, s)]) {produce : Cached α (Series α)}
    (made : Visits produce s n.needs) : Visits (Cached.fetch k produce) s [n] :=
  request (by rw [results]; exact List.mem_singleton_self _) rfl made rfl
    (by rw [results]; rfl)

/-- An answer worked on without the cache. -/
theorem map {x : Cached α β} {b : β} {nodes : List (Node α)} (visits : Visits x b nodes)
    (f : β → γ) : Visits (x >>= fun b => Pure.pure (f b)) (f b) nodes := by
  simpa using visits.bind (f := fun b => Pure.pure (f b)) (pure (f b))

end Visits

theorem visits_priceSeries (bars : Bars α) (source : PriceSource) :
    Visits (priceSeries bars source) (bars.price source) [.price bars source] :=
  .fetch rfl (.pure _)

theorem visits_trueRangeSeries (bars : Bars α) :
    Visits (trueRangeSeries bars) bars.trueRanges [.onBars .trueRange bars] :=
  .fetch rfl (.pure _)

/-! ## Indicators on series -/

theorem SeriesIndicator.visits_cachedStages (period depth : Nat)
    (data : Series α) :
    Visits (cachedStages period depth data) (Filter.stages (emaAlpha period) depth data)
      (Node.stages period depth data) := by
  induction depth generalizing data with
  | zero => exact .pure _
  | succ depth ih =>
      have stage : Visits (Cached.fetch ((ema period).key data) (pure ((ema period).values data)))
          ((ema period).values data) [.onSeries (ema period) data] :=
        .fetch rfl (.pure _)
      exact stage.bind ((ih _).map _)

theorem SeriesIndicator.visits_cached (i : SeriesIndicator α)
    (data : Series α) : Visits (i.cached data) (i.values data) [.onSeries i data] := by
  refine .fetch rfl ?_
  cases i with
  | cascade kind period => exact (visits_cachedStages period kind.depth data).map _
  | _ => exact .pure _

/-! ## Indicators on bars -/

theorem BarIndicator.visits_cached (i : BarIndicator) (bars : Bars α) :
    Visits (i.cached bars) (i.values bars) [.onBars i bars] := by
  refine .fetch rfl ?_
  cases i with
  | averageTrueRange period => exact (visits_trueRangeSeries bars).map _
  | volatilityAverage period short long measure source =>
      cases measure with
      | deviation => exact (visits_priceSeries bars source).bind ((Visits.pure _).map _)
      | trueRange =>
          exact (visits_priceSeries bars source).bind
            ((visits_trueRangeSeries bars).map _)
  | fractalAverage period source =>
      exact (visits_priceSeries bars source).bind
        ((visits_priceSeries bars .high).bind ((visits_priceSeries bars .low).map _))
  | _ => exact .pure _

/-! ## Bundles -/

theorem Bundle.visits_cachedOutputs (b : Bundle α) (data : Series α) :
    Visits (b.cachedOutputs data) (b.outputs data) (Node.outputs b data).needs := by
  cases b with
  | macd fast slow signal =>
      exact ((SeriesIndicator.ema fast).visits_cached data).bind
        (((SeriesIndicator.ema slow).visits_cached data).bind
          (((SeriesIndicator.ema signal).visits_cached _).map _))
  | bollinger period multiplier =>
      exact ((SeriesIndicator.simple period).visits_cached data).bind
        (((SeriesIndicator.deviation period).visits_cached data).map _)

omit [Fingerprint α] in
theorem Bundle.lookup_output {b : Bundle α} {output : String} (known : output ∈ b.names)
    (data : Series α) : ∃ series, (output, series) ∈ b.outputs data ∧
      (b.outputs data).lookup output = some series := by
  cases b <;> simp only [names, List.mem_cons, List.not_mem_nil, or_false] at known <;>
    rcases known with rfl | rfl | rfl | rfl | rfl <;>
    exact ⟨_, by simp [outputs, bands], rfl⟩

theorem Bundle.visits_cachedOutput {b : Bundle α} {output : String}
    (known : output ∈ b.names) (data : Series α) :
    Visits (b.cachedOutput data output) ((b.outputs data).lookup output) [.outputs b data] := by
  obtain ⟨series, member, found⟩ := lookup_output known data
  rw [cachedOutput, if_pos (by simpa using known), found]
  refine .request (Node.mem_results_outputs.mpr ⟨output, member, rfl⟩) rfl
    (b.visits_cachedOutputs data) rfl ?_
  rw [storeAll_eq, found]
  rfl

/-! ## Handlers and stops -/

/-- The nodes that a handler asks for. -/
def Handler.asks (h : Handler α) (bars : Bars α) : List (Node α) :=
  match h with
  | .onPrice source indicator => [.price bars source, .onSeries indicator (bars.price source)]
  | .onBars indicator => [.onBars indicator bars]
  | .onOutput source bundle output =>
    .price bars source ::
      if output ∈ bundle.names then [.outputs bundle (bars.price source)] else []

theorem Handler.visits_execute (h : Handler α) (bars : Bars α) :
    Visits (h.execute bars) (h.values bars) (h.asks bars) := by
  cases h with
  | onPrice source i =>
      exact (visits_priceSeries bars source).bind (i.visits_cached _)
  | onBars i => exact i.visits_cached bars
  | onOutput source b output =>
      have price := visits_priceSeries bars source
      by_cases known : output ∈ b.names
      · rw [asks, if_pos known]
        exact price.bind ((Bundle.visits_cachedOutput known _).map _)
      · have absent : (b.outputs (bars.price source)).lookup output = none :=
          Bundle.lookup_unknown known _
        rw [asks, if_neg known, values, absent]
        refine price.bind ?_
        rw [Bundle.cachedOutput, if_neg (by simpa using known)]
        exact (Visits.pure _).map _

/-- The nodes that a stop asks for. -/
def Stop.asks (s : Stop α) (bars : Bars α) : List (Node α) :=
  match s with
  | .chandelier period _ => [.onBars (.averageTrueRange period) bars]
  | _ => []

theorem Stop.visits_compute (s : Stop α) (bars : Bars α)
    (position : Position α) :
    Visits (s.compute bars position) (s.values bars position) (s.asks bars) := by
  cases s with
  | chandelier period multiplier =>
      exact ((BarIndicator.averageTrueRange period).visits_cached bars).map _
  | _ => exact (Visits.pure _).map _

/-! ## Evaluations -/

/-- The nodes that an evaluation asks for. -/
def Evaluation.asks : Evaluation α → List (Node α)
  | .execute handler bars => handler.asks bars
  | .stop s bars _ => s.asks bars

theorem Evaluation.visits (e : Evaluation α) :
    Visits e.answer e.answer.uncached e.asks := by
  cases e with
  | execute h bars =>
      have visits := h.visits_execute bars
      rwa [← h.uncached_execute] at visits
  | stop s bars position =>
      have visits := s.visits_compute bars position
      rwa [← s.uncached_compute] at visits

end Chartist
