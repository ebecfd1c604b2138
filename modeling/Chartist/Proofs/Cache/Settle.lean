import Chartist.Proofs.Cache.Node

/-!
# Lookups fail once

Whatever keys say, a computation stores what it looked up in vain before anything else asks for it:
`Settles` says so of one computation, for every memo that is `Tidy`. The rules for sequencing
(`Settles.bind`) and for one request (`Settles.request`) take no law of keys. A request is followed
by others while its own key is still missing, but these are for other operations, so the operations
that a computation may look up in vain are written down along with it.

In a tidy memo the outputs of a bundle stand together and prices stand under the keys of bars that
were met. That the price of bars is found and not that of others takes that the identities of bars
do not collide, and is left to those who ask.
-/

namespace Chartist

open Window Chartist.Filter

variable {α β γ : Type} [Scalar α] [Fingerprint α]

/-! ## Tidy memos -/

/-- The key of an output tells the bundle and what it runs on. -/
theorem Bundle.key_eq_of_withOutput {b c : Bundle α} {data data' : Series α} {o o' : String}
    (same : (b.key data).withOutput o = (c.key data').withOutput o') : b.key data = c.key data' := by
  obtain ⟨ops, params, sources⟩ := CacheKey.mk.inj same
  exact CacheKey.mk.injEq .. ▸ ⟨Bundle.output_op_inj ops, params, sources⟩

/-- The outputs of a bundle are all kept or all missing. -/
def Memo.AllOrNone (m : Memo α) (b : Bundle α) (data : Series α) : Prop :=
  (∀ output ∈ b.names, m.contains ((b.key data).withOutput output) = true) ∨
    ∀ output ∈ b.names, m.contains ((b.key data).withOutput output) = false

/-- Prices stand under the keys of known bars, and the outputs of a bundle stand together. -/
structure Memo.Tidy (known : Set (Bars α)) (m : Memo α) : Prop where
  prices : ∀ k s, (k, s) ∈ m.entries → opKind k.op = .price →
    ∃ bars ∈ known, ∃ source, k = priceKey bars source ∧ s = bars.price source
  together : ∀ (b : Bundle α) (data : Series α), m.AllOrNone b data

namespace Memo

variable {known : Set (Bars α)} {m m' : Memo α}

/-- Keys that are no outputs do not come between outputs. -/
theorem AllOrNone.congr {b : Bundle α} {data : Series α} (all : m.AllOrNone b data)
    (same : ∀ output ∈ b.names, m'.contains ((b.key data).withOutput output) =
      m.contains ((b.key data).withOutput output)) : m'.AllOrNone b data :=
  all.imp (fun kept output named => (same output named).trans (kept output named))
    fun missing output named => (same output named).trans (missing output named)

namespace Tidy

theorem empty : Tidy known (.empty : Memo α) where
  prices _ _ member := absurd member List.not_mem_nil
  together _ _ := .inr fun _ _ => rfl

theorem mono {known' : Set (Bars α)} (tidy : m.Tidy known) (subset : known ⊆ known') :
    m.Tidy known' where
  prices k s member kind := by
    obtain ⟨bars, met, rest⟩ := tidy.prices k s member kind
    exact ⟨bars, subset met, rest⟩
  together := tidy.together

/-- A series is kept that is no output of a bundle. -/
theorem store (tidy : m.Tidy known) {k : CacheKey} {s : Series α} (kind : opKind k.op ≠ .output)
    (priced : opKind k.op = .price →
      ∃ bars ∈ known, ∃ source, k = priceKey bars source ∧ s = bars.price source) :
    (m.store k s).Tidy known where
  prices k' s' member kind' := by
    rcases Memo.mem_put member with here | early
    · obtain ⟨rfl, rfl⟩ := Prod.mk.inj here
      exact priced kind'
    · exact tidy.prices k' s' early kind'
  together b data := by
    refine (tidy.together b data).congr fun output named => ?_
    have other : (b.key data).withOutput output ≠ k := by
      rintro rfl
      exact kind (b.opKind_output named)
    rw [contains, contains, find?_store, if_neg other]

/-- All outputs of a bundle are kept at once. -/
theorem storeOutputs (tidy : m.Tidy known) {b : Bundle α} {data : Series α}
    {all : List (String × Series α)} (names : all.map Prod.fst = b.names) :
    (m.storeAll (all.map fun (name, series) => ((b.key data).withOutput name, series))).Tidy
      known := by
  have keys : (all.map fun (name, series) => ((b.key data).withOutput name, series)).map Prod.fst =
      b.names.map (b.key data).withOutput := by
    rw [← names, List.map_map, List.map_map]
    rfl
  constructor
  · intro k s member kind
    rcases mem_storeAll member with new | early
    · obtain ⟨⟨name, series⟩, listed, here⟩ := List.mem_map.mp new
      obtain ⟨rfl, rfl⟩ := Prod.mk.inj here
      have named : name ∈ b.names := names ▸ List.mem_map_of_mem listed
      have output : opKind ((b.key data).withOutput name).op = .output := b.opKind_output named
      rw [output] at kind
      cases kind
    · exact tidy.prices k s early kind
  · intro c data'
    by_cases same : c.key data' = b.key data
    · refine .inl fun output named => contains_iff.mpr fun lacks => ?_
      have listed : output ∈ b.names := Bundle.names_eq (congrArg CacheKey.op same) ▸ named
      rw [lacks_storeAll, keys, same] at lacks
      exact lacks.1 (List.mem_map_of_mem listed)
    · refine (tidy.together c data').congr fun output named => ?_
      have other : (c.key data').withOutput output ∉ b.names.map (b.key data).withOutput := by
        intro member
        obtain ⟨_, -, equal⟩ := List.mem_map.mp member
        exact same (Bundle.key_eq_of_withOutput equal.symm)
      rw [Bool.eq_iff_iff, contains_iff, contains_iff, lacks_storeAll, keys]
      tauto

end Tidy

end Memo

/-! ## Computations -/

/-- On every tidy memo the computation leaves a tidy memo and an answer that is `good`. The keys
that it looks up in vain, all of them for operations in `ops`, fail once and are kept at the
end. -/
def Settles (known : Set (Bars α)) (x : Cached α β) (ops : List String) (good : β → Prop) : Prop :=
  ∀ m, m.Tidy known → ∃ b m', x.run (.memo m) = (b, .memo m') ∧ good b ∧ m'.Tidy known ∧
    (x.failed m).Nodup ∧ ∀ k ∈ x.failed m, k.op ∈ ops ∧ ¬ m'.Lacks k

namespace Settles

variable {known : Set (Bars α)} {ops ops' : List String} {good : β → Prop} {good' : γ → Prop}

protected theorem pure {b : β} (holds : good b) :
    Settles known (Pure.pure b : Cached α β) ops good :=
  fun m tidy => ⟨b, m, rfl, holds, tidy, List.nodup_nil, fun _ failed => absurd failed List.not_mem_nil⟩

theorem mono {x : Cached α β} {weaker : β → Prop} (settles : Settles known x ops good)
    (subset : ops ⊆ ops') (weaken : ∀ b, good b → weaker b) : Settles known x ops' weaker := by
  intro m tidy
  obtain ⟨b, m', run, holds, tidy', once, kept⟩ := settles m tidy
  exact ⟨b, m', run, weaken b holds, tidy', once, fun k failed =>
    ⟨subset (kept k failed).1, (kept k failed).2⟩⟩

theorem bind {x : Cached α β} {f : β → Cached α γ} (first : Settles known x ops good)
    (rest : ∀ b, good b → Settles known (f b) ops good') : Settles known (x >>= f) ops good' := by
  intro m tidy
  obtain ⟨b, m₁, run₁, holds, tidy₁, once₁, kept₁⟩ := first m tidy
  obtain ⟨c, m₂, run₂, holds', tidy₂, once₂, kept₂⟩ := rest b holds m₁ tidy₁
  refine ⟨c, m₂, by rw [Cached.run_bind, run₁, run₂], holds', tidy₂, ?_, ?_⟩
  · -- what failed first is kept by then, so it does not fail again
    rw [Cached.failed_bind f run₁]
    exact once₁.append once₂ fun k failed failed' =>
      (kept₁ k failed).2 (Cached.lacks_of_failed failed')
  · intro k failed
    rw [Cached.failed_bind f run₁, List.mem_append] at failed
    rcases failed with early | late
    · refine ⟨(kept₁ k early).1, fun lacks => (kept₁ k early).2 ?_⟩
      exact Cached.lacks_of_after (Cached.after_eq run₂ ▸ lacks)
    · exact kept₂ k late

/-- An answer worked on without the cache. -/
theorem map {x : Cached α β} (settles : Settles known x ops good) {f : β → γ}
    (holds : ∀ b, good b → good' (f b)) :
    Settles known (x >>= fun b => Pure.pure (f b)) ops good' :=
  settles.bind fun b known => .pure (holds b known)

/-- A request under a key for an operation that the computation behind it does not look up: on a
reply the request ends; otherwise it computes, stores under its key and others, and ends. -/
theorem request {k : CacheKey} {next : Option (Series α) → Cached α β} {produce : Cached α γ}
    {finish : γ → Cached α β} (made : Settles known produce ops good') (other : k.op ∉ ops)
    (reply : ∀ (m : Memo α) (s : Series α), m.Tidy known → (k, s) ∈ m.entries →
      ∃ b, next (some s) = .answer b ∧ good b)
    (missed : next none = produce >>= finish)
    (kept : ∀ c, good' c → ∃ news b, (finish c = Cached.keepAll news >>= fun _ => Pure.pure b) ∧
      good b ∧ k ∈ news.map Prod.fst ∧ ∀ m : Memo α, m.Tidy known → (m.storeAll news).Tidy known) :
    Settles known (.lookup k next) (k.op :: ops) good := by
  intro m tidy
  cases found : m.find? k with
  | some s =>
      obtain ⟨b, answer, holds⟩ := reply m s tidy (Memo.find?_mem found)
      refine ⟨b, { m with hits := m.hits + 1 }, ?_, holds, ⟨tidy.prices, tidy.together⟩, ?_⟩
      · simp [Cached.run, Cache.lookup, Memo.lookup_some found, answer]
      · simp [Cached.failed, Memo.lookup_some found, answer]
  | none =>
      have absent := Memo.find?_eq_none.mp found
      have counted : ({ m with misses := m.misses + 1 } : Memo α).Tidy known :=
        ⟨tidy.prices, tidy.together⟩
      obtain ⟨c, m', run', holds', tidy', once, inner⟩ := made _ counted
      obtain ⟨news, b, finished, holds, stored, keeps⟩ := kept c holds'
      obtain ⟨run, failed⟩ := Cached.lookup_missed absent missed run' finished
      refine ⟨b, m'.storeAll news, run, holds, keeps m' tidy', ?_, ?_⟩
      · rw [failed, List.nodup_cons]
        exact ⟨fun again => other (inner k again).1, once⟩
      · intro k' lost
        rw [failed, List.mem_cons] at lost
        rw [Memo.lacks_storeAll]
        rcases lost with rfl | lost
        · exact ⟨List.mem_cons_self, fun lacks => lacks.1 stored⟩
        · exact ⟨List.mem_cons_of_mem _ (inner k' lost).1, fun lacks => (inner k' lost).2 lacks.2⟩

/-- A request for one series. -/
theorem fetch {k : CacheKey} {produce : Cached α (Series α)} {fine found : Series α → Prop}
    (made : Settles known produce ops fine) (other : k.op ∉ ops)
    (reply : ∀ (m : Memo α) (s : Series α), m.Tidy known → (k, s) ∈ m.entries → found s)
    (kept : ∀ s, fine s → found s ∧ ∀ m : Memo α, m.Tidy known → (m.store k s).Tidy known) :
    Settles known (Cached.fetch k produce) (k.op :: ops) found :=
  made.request other (fun m s tidy held => ⟨s, rfl, reply m s tidy held⟩) rfl fun s holds =>
    ⟨[(k, s)], s, rfl, (kept s holds).1, List.mem_singleton_self _, (kept s holds).2⟩

/-- A request for a series that is neither a price nor an output. -/
theorem fetchOther {k : CacheKey} {produce : Cached α (Series α)}
    (made : Settles known produce ops fun _ => True) (other : k.op ∉ ops)
    (kind : opKind k.op = .series ∨ opKind k.op = .bars) :
    Settles known (Cached.fetch k produce) (k.op :: ops) fun _ => True :=
  made.fetch other (fun _ _ _ _ => trivial) fun s _ => ⟨trivial, fun m tidy => by
    rcases kind with kind | kind <;> exact tidy.store (by simp [kind]) (by simp [kind])⟩

/-- A request for a series that takes no other one. -/
theorem leaf (k : CacheKey) (s : Series α) (kind : opKind k.op = .series ∨ opKind k.op = .bars) :
    Settles known (Cached.fetch k (Pure.pure s)) [k.op] fun _ => True := by
  have made : Settles known (Pure.pure s : Cached α (Series α)) [] fun _ => True := .pure trivial
  exact made.fetchOther List.not_mem_nil kind

end Settles

/-! ## Prices and true ranges -/

variable {known : Set (Bars α)}

/-- What is found under the key of a price is the price of bars with that identity. -/
theorem settles_priceSeries {bars : Bars α} (met : bars ∈ known) (source : PriceSource) :
    Settles known (priceSeries bars source) ["PRICE"] fun data =>
      ∃ bars' ∈ known, SourceId.ofBars bars' = .ofBars bars ∧ data = bars'.price source := by
  have made : Settles known (pure (bars.price source) : Cached α (Series α)) []
      (· = bars.price source) := .pure rfl
  refine made.fetch List.not_mem_nil ?_ ?_
  · intro m s tidy held
    obtain ⟨bars', met', source', same, rfl⟩ := tidy.prices _ s held rfl
    obtain ⟨-, names, sources⟩ := CacheKey.mk.inj same
    obtain rfl := PriceSource.legible_name.injective names
    exact ⟨bars', met', sources.symm, rfl⟩
  · rintro _ rfl
    refine ⟨⟨bars, met, rfl, rfl⟩, fun m tidy => ?_⟩
    exact tidy.store (by simp [opKind, priceKey]) fun _ => ⟨bars, met, source, rfl, rfl⟩

theorem settles_trueRangeSeries (bars : Bars α) :
    Settles known (trueRangeSeries bars) ["TR"] fun _ => True :=
  .leaf (trueRangeKey bars) _ (.inr rfl)

/-! ## Indicators -/

theorem SeriesIndicator.settles_cachedStages (period depth : Nat) (data : Series α) :
    Settles known (cachedStages period depth data) ["EMA"] fun _ => True := by
  induction depth generalizing data with
  | zero => exact .pure trivial
  | succ depth ih =>
      have stage : Settles known
          (Cached.fetch ((ema period).key data) (pure ((ema period).values data))) ["EMA"]
          fun _ => True :=
        .leaf _ _ (.inl (opKind_name (ema period : SeriesIndicator α)))
      exact stage.bind fun stage _ => (ih stage).map fun _ _ => trivial

theorem SeriesIndicator.settles_cached (i : SeriesIndicator α) (data : Series α) :
    Settles known (i.cached data) [i.name, "EMA"] fun _ => True := by
  have leaf (series : Series α) : Settles known (Cached.fetch (i.key data) (pure series))
      [i.name, "EMA"] fun _ => True :=
    (Settles.leaf (i.key data) series (.inl i.opKind_name)).mono
      (List.subset_append_left [i.name] _) fun _ _ => trivial
  cases i with
  | cascade kind period =>
      refine Settles.fetchOther ?_ ?_ (.inl (opKind_name (cascade kind period)))
      · exact (settles_cachedStages period kind.depth data).map fun _ _ => trivial
      · cases kind <;> simp [key, name]
  | _ => exact leaf _

theorem BarIndicator.settles_cached (i : BarIndicator) {bars : Bars α} (met : bars ∈ known) :
    Settles known (i.cached bars) [i.name, "PRICE", "TR"] fun _ => True := by
  have price (source : PriceSource) :
      Settles known (priceSeries bars source) ["PRICE", "TR"] fun _ => True :=
    (settles_priceSeries met source).mono (List.subset_append_left ["PRICE"] _) fun _ _ => trivial
  have ranges : Settles known (trueRangeSeries bars) ["PRICE", "TR"] fun _ => True :=
    (settles_trueRangeSeries bars).mono (List.subset_append_right ["PRICE"] _) fun _ _ => trivial
  have kind := i.opKind_name
  have composite {produce : Cached α (Series α)} (named : i.name ∉ ["PRICE", "TR"])
      (made : Settles known produce ["PRICE", "TR"] fun _ => True) :
      Settles known (Cached.fetch (i.key bars) produce) [i.name, "PRICE", "TR"] fun _ => True :=
    made.fetchOther named (.inr kind)
  cases i with
  | trueRange =>
      exact (settles_trueRangeSeries bars).mono (by simp [name]) fun _ _ => trivial
  | averageTrueRange period => exact composite (by simp [name]) (ranges.map fun _ _ => trivial)
  | volatilityAverage period short long measure source =>
      refine composite (by simp [name]) ((price source).bind fun _ _ => ?_)
      cases measure with
      | deviation => exact .pure trivial
      | trueRange => exact ranges.map fun _ _ => trivial
  | fractalAverage period source =>
      exact composite (by simp [name]) ((price source).bind fun _ _ => (price .high).bind fun _ _ =>
        (price .low).map fun _ _ => trivial)
  | stochastic period | donchian period line => exact composite (by simp [name]) (.pure trivial)

/-! ## Bundles -/

theorem Bundle.settles_cachedOutputs (b : Bundle α) (data : Series α) :
    Settles known (b.cachedOutputs data) ["EMA", "SMA", "STDDEV"] fun all =>
      all.map Prod.fst = b.names := by
  have part (i : SeriesIndicator α) (named : i.name ∈ ["EMA", "SMA", "STDDEV"]) (data : Series α) :
      Settles known (i.cached data) ["EMA", "SMA", "STDDEV"] fun _ => True :=
    (i.settles_cached data).mono (by simpa using named) fun _ _ => trivial
  cases b with
  | macd fast slow signal =>
      refine (part (.ema fast) (by simp [SeriesIndicator.ema, SeriesIndicator.name]) data).bind
        fun fastLine _ => ?_
      refine (part (.ema slow) (by simp [SeriesIndicator.ema, SeriesIndicator.name]) data).bind
        fun slowLine _ => ?_
      exact (part (.ema signal) (by simp [SeriesIndicator.ema, SeriesIndicator.name]) _).map
        fun _ _ => rfl
  | bollinger period multiplier =>
      refine (part (.simple period) (by simp [SeriesIndicator.name]) data).bind fun middle _ => ?_
      exact (part (.deviation period) (by simp [SeriesIndicator.name]) data).map fun _ _ => rfl

theorem Bundle.settles_cachedOutput (b : Bundle α) (data : Series α) (output : String) :
    Settles known (b.cachedOutput data output)
      [b.name ++ "." ++ output, "EMA", "SMA", "STDDEV"] fun _ => True := by
  unfold cachedOutput
  split
  next named =>
    have named : output ∈ b.names := by simpa using named
    refine (b.settles_cachedOutputs data).request ?_ (fun _ s _ _ => ⟨some s, rfl, trivial⟩) rfl ?_
    · -- no operation on series has the name of an output
      have kind := b.opKind_output named
      intro member
      simp only [List.mem_cons, List.not_mem_nil, or_false] at member
      rcases member with same | same | same <;>
        · rw [show b.name ++ "." ++ output = _ from same] at kind
          cases kind
    · intro all names
      refine ⟨_, all.lookup output, by rw [storeAll_eq], trivial, ?_, fun m tidy =>
        tidy.storeOutputs names⟩
      rw [← names] at named
      obtain ⟨entry, listed, rfl⟩ := List.mem_map.mp named
      exact List.mem_map.mpr ⟨_, List.mem_map_of_mem listed, rfl⟩
  next => exact .pure trivial

end Chartist
