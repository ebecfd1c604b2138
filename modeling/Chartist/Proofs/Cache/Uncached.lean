import Chartist.Session

/-!
# Computations without a cache

A cache that is off replies to nothing, so a computation runs through all of its own work.
Every computation of the library that may use a cache then answers what its indicator, bundle
or stop is defined to answer, with no assumption on keys.
-/

namespace Chartist

open Window Chartist.Filter

variable {α β γ : Type}

namespace Cached

/-- A cache that is off stays so. -/
theorem run_off (x : Cached α β) : x.run .off = (x.uncached, .off) := by
  induction x with
  | answer b => rfl
  | lookup key next ih => exact ih none
  | store key series next ih => exact ih

@[simp] theorem uncached_pure (b : β) : (pure b : Cached α β).uncached = b := rfl

@[simp] theorem uncached_bind (x : Cached α β) (f : β → Cached α γ) :
    (x >>= f).uncached = (f x.uncached).uncached := by
  induction x with
  | answer b => rfl
  | lookup key next ih => exact ih none
  | store key series next ih => exact ih

@[simp] theorem uncached_find (key : CacheKey) :
    (find key : Cached α (Option (Series α))).uncached = none := rfl

@[simp] theorem uncached_fetch (key : CacheKey) (produce : Cached α (Series α)) :
    (fetch key produce).uncached = produce.uncached := by
  simp [fetch]

end Cached

variable [Scalar α] [Fingerprint α]

@[simp] theorem uncached_priceSeries (bars : Bars α) (source : PriceSource) :
    (priceSeries bars source).uncached = bars.price source := by
  simp [priceSeries]

@[simp] theorem uncached_trueRangeSeries (bars : Bars α) :
    (trueRangeSeries bars).uncached = bars.trueRanges := by
  simp [trueRangeSeries]

@[simp] theorem SeriesIndicator.uncached_cachedStages (period depth : Nat) (data : Series α) :
    (cachedStages period depth data).uncached = Filter.stages (emaAlpha period) depth data := by
  induction depth generalizing data with
  | zero => rfl
  | succ depth ih => simp [cachedStages, stages, ih, ema, values]

@[simp] theorem SeriesIndicator.uncached_cached (i : SeriesIndicator α) (data : Series α) :
    (i.cached data).uncached = i.values data := by
  cases i <;> simp [cached, values]

@[simp] theorem BarIndicator.uncached_cached (i : BarIndicator) (bars : Bars α) :
    (i.cached bars).uncached = i.values bars := by
  cases i with
  | volatilityAverage period short long measure source =>
      cases measure <;> simp [cached, values, volatilityAlphas]
  | _ => simp [cached, values]

@[simp] theorem Bundle.uncached_cachedOutputs (b : Bundle α) (data : Series α) :
    (b.cachedOutputs data).uncached = b.outputs data := by
  cases b <;> simp [cachedOutputs, outputs]

omit [Fingerprint α] in
theorem Bundle.map_fst_outputs (b : Bundle α) (data : Series α) :
    (b.outputs data).map Prod.fst = b.names := by
  cases b <;> rfl

omit [Fingerprint α] in
theorem Bundle.output_known {b : Bundle α} {data : Series α} {name : String} {series : Series α}
    (member : (name, series) ∈ b.outputs data) : name ∈ b.names :=
  b.map_fst_outputs data ▸ List.mem_map_of_mem member

omit [Fingerprint α] in
theorem Bundle.lookup_unknown {b : Bundle α} {output : String} (unknown : output ∉ b.names)
    (data : Series α) : (b.outputs data).lookup output = none := by
  refine List.lookup_eq_none_iff.mpr fun entry member => ?_
  have other : output ≠ entry.1 := fun same => unknown (same ▸ output_known member)
  simpa using other

@[simp] theorem Bundle.uncached_cachedOutput (b : Bundle α) (data : Series α) (output : String) :
    (b.cachedOutput data output).uncached = (b.outputs data).lookup output := by
  by_cases known : output ∈ b.names
  · simp [cachedOutput, known]
  · simp [cachedOutput, known, lookup_unknown known]

theorem Handler.uncached_execute (h : Handler α) (bars : Bars α) :
    (h.execute bars).uncached = h.values bars := by
  cases h <;> simp [execute, values]

theorem Stop.uncached_compute (s : Stop α) (bars : Bars α) (position : Position α) :
    (s.compute bars position).uncached = s.values bars position := by
  cases s <;> simp [compute, values, ranges]

end Chartist
