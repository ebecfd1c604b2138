import Chartist.Proofs.Cache.Settle
import Chartist.Proofs.Catalog
import Chartist.Proofs.Session

/-!
# Nothing is computed twice

Between two clears of its memo a session looks up no key in vain twice, since every evaluation
stores what it looked up in vain (`Evaluation.settles`) and no entry is ever lost. This takes no law
of keys at all. What a handler was executed for is found again if the bars of the session are told
apart by their identities, for the keys of its series are then made from the prices of its own bars
(`Ledger.Settled.answers`).
-/

namespace Chartist

variable {α : Type} [Scalar α] [Fingerprint α] {known : Set (Bars α)}

/-! ## Evaluations -/

theorem Handler.settles_execute (h : Handler α) {bars : Bars α} (met : bars ∈ known) :
    ∃ ops, Settles known (h.execute bars) ops fun _ => True := by
  cases h with
  | onPrice source i =>
      refine ⟨["PRICE", i.name, "EMA"], ?_⟩
      have price := (settles_priceSeries met source).mono
        (List.subset_append_left ["PRICE"] [i.name, "EMA"]) fun _ holds => holds
      exact price.bind fun data _ => (i.settles_cached data).mono
        (List.subset_append_right ["PRICE"] _) fun _ _ => trivial
  | onBars i => exact ⟨_, i.settles_cached met⟩
  | onOutput source b output =>
      refine ⟨["PRICE", b.name ++ "." ++ output, "EMA", "SMA", "STDDEV"], ?_⟩
      have price := (settles_priceSeries met source).mono (List.subset_append_left ["PRICE"]
        [b.name ++ "." ++ output, "EMA", "SMA", "STDDEV"]) fun _ holds => holds
      exact price.bind fun data _ => ((b.settles_cachedOutput data output).mono
        (List.subset_append_right ["PRICE"] _) fun _ _ => trivial).map fun _ _ => trivial

theorem Stop.settles_compute (s : Stop α) {bars : Bars α} (met : bars ∈ known)
    (position : Position α) :
    ∃ ops, Settles known (s.compute bars position) ops fun _ => True := by
  cases s with
  | chandelier period multiplier =>
      exact ⟨_, ((BarIndicator.averageTrueRange period).settles_cached met).map fun _ _ => trivial⟩
  | _ => exact ⟨[], .pure trivial⟩

/-- The bars that an evaluation goes through. -/
def Evaluation.bars : Evaluation α → Bars α
  | .execute _ bars | .stop _ bars _ => bars

/-- The bars that a step goes through. -/
def Step.bars : Step α → List (Bars α)
  | .evaluate e => [e.bars]
  | .clear => []

theorem Evaluation.settles {e : Evaluation α} (met : e.bars ∈ known) :
    ∃ ops, Settles known e.answer ops fun _ => True := by
  cases e with
  | execute h bars => exact h.settles_execute met
  | stop s bars position => exact s.settles_compute met position

/-! ## Executions again -/

/-- The key of the answer of a handler. -/
def Handler.answerKey (h : Handler α) (bars : Bars α) : CacheKey :=
  match h with
  | .onPrice source indicator => indicator.key (bars.price source)
  | .onBars indicator => indicator.key bars
  | .onOutput source bundle output => (bundle.key (bars.price source)).withOutput output

/-- The answer of a handler is kept, and an execution returns it and counts hits only. -/
def Memo.Answers (m : Memo α) (h : Handler α) (bars : Bars α) : Prop :=
  ∃ series, m.find? (h.answerKey bars) = some series ∧
    (h.execute bars).run (.memo m) =
      (series, .memo { m with hits := m.hits + (h.asks bars).length })

/-- The keys that an execution looks up, apart from the work behind them. -/
def Handler.lookups (h : Handler α) (bars : Bars α) : List CacheKey :=
  match h with
  | .onBars _ => [h.answerKey bars]
  | .onPrice source _ | .onOutput source _ _ => [priceKey bars source, h.answerKey bars]

/-- The key of a request is kept when the request has ended. -/
theorem Settles.kept {β : Type} {k : CacheKey} {next : Option (Series α) → Cached α β}
    {ops : List String} {good : β → Prop} (settles : Settles known (.lookup k next) ops good)
    {m : Memo α} (tidy : m.Tidy known) : ¬ ((Cached.lookup k next).after m).Lacks k := by
  intro lacks
  have absent := Cached.lacks_of_after lacks
  obtain ⟨b, m', run, -, -, -, kept⟩ := settles m tidy
  have failed : k ∈ (Cached.lookup k next).failed m := by
    rw [Cached.failed, Memo.lookup_none (Memo.find?_eq_none.mpr absent)]
    exact List.mem_cons_self
  exact (kept k failed).2 (Cached.after_eq run ▸ lacks)

/-- On a tidy memo the price of known bars is found or computed, if their identity tells them. -/
theorem run_priceSeries (free : Set.InjOn SourceId.ofBars known) {bars : Bars α}
    (met : bars ∈ known) (source : PriceSource) {m : Memo α} (tidy : m.Tidy known) :
    ∃ m', (priceSeries bars source).run (.memo m) = (bars.price source, .memo m') ∧
      m'.Tidy known ∧ ¬ m'.Lacks (priceKey bars source) := by
  obtain ⟨data, m', run, ⟨bars', met', same, rfl⟩, tidy', -⟩ := settles_priceSeries met source m tidy
  obtain rfl := free met' met same
  exact ⟨m', run, tidy', Cached.after_eq run ▸ (settles_priceSeries met source).kept tidy⟩

theorem Bundle.kept_cachedOutput (b : Bundle α) {output : String} (named : output ∈ b.names)
    (data : Series α) {m : Memo α} (tidy : m.Tidy known) :
    ¬ ((b.cachedOutput data output).after m).Lacks ((b.key data).withOutput output) := by
  have settles : Settles known (b.cachedOutput data output)
      [b.name ++ "." ++ output, "EMA", "SMA", "STDDEV"] fun _ => True :=
    b.settles_cachedOutput data output
  rw [cachedOutput, if_pos (by simpa using named)] at settles ⊢
  exact settles.kept tidy

/-- What an execution looks up is kept when it has ended. -/
theorem Handler.kept_of_execute (free : Set.InjOn SourceId.ofBars known) {h : Handler α}
    (accepted : h.Accepted) {bars : Bars α} (met : bars ∈ known) {m : Memo α}
    (tidy : m.Tidy known) : ∀ k ∈ h.lookups bars, ¬ ((h.execute bars).after m).Lacks k := by
  have afterPrice {source : PriceSource} {rest : Series α → Cached α (Series α)} {k : CacheKey}
      (kept : ∀ m' : Memo α, m'.Tidy known → ¬ ((rest (bars.price source)).after m').Lacks k) :
      ∀ k' ∈ [priceKey bars source, k],
        ¬ ((priceSeries bars source >>= rest).after m).Lacks k' := by
    obtain ⟨m', run, tidy', price⟩ := run_priceSeries free met source tidy
    rw [Cached.after_bind run]
    simp only [List.forall_mem_cons, List.not_mem_nil, false_imp_iff, implies_true, and_true]
    exact ⟨fun lacks => price (Cached.lacks_of_after lacks), kept m' tidy'⟩
  cases h with
  | onPrice source i => exact afterPrice fun m' tidy' => (i.settles_cached _).kept tidy'
  | onBars i =>
      rintro k (_ | ⟨_, ⟨⟩⟩)
      exact (i.settles_cached met).kept tidy
  | onOutput source b output =>
      exact afterPrice fun m' tidy' lacks =>
        b.kept_cachedOutput accepted.2 _ tidy' (Cached.lacks_of_after_bind lacks)

omit [Scalar α] [Fingerprint α] in
theorem Cached.run_fetch_kept {k : CacheKey} {m : Memo α} {series : Series α}
    (found : m.find? k = some series) (produce : Cached α (Series α)) :
    (Cached.fetch k produce).run (.memo m) = (series, .memo { m with hits := m.hits + 1 }) := by
  rw [Cached.fetch, Cached.run_bind, Cached.find, Cached.run, Cache.lookup, Memo.lookup_some found]
  rfl

/-- Where all that an execution looks up is kept, its answer is returned and only hits are
counted. -/
theorem Handler.answers_of_kept (free : Set.InjOn SourceId.ofBars known) {h : Handler α}
    (accepted : h.Accepted) {bars : Bars α} (met : bars ∈ known) {m : Memo α}
    (tidy : m.Tidy known) (kept : ∀ k ∈ h.lookups bars, ¬ m.Lacks k) : m.Answers h bars := by
  have found {k : CacheKey} (held : ¬ m.Lacks k) : ∃ series, m.find? k = some series :=
    Option.ne_none_iff_exists'.mp (mt Memo.find?_eq_none.mp held)
  -- the price of these bars is found, as no other bars are known by their identity
  have afterPrice {source : PriceSource} {rest : Series α → Cached α (Series α)}
      (held : ¬ m.Lacks (priceKey bars source)) :
      (priceSeries bars source >>= rest).run (.memo m) =
        (rest (bars.price source)).run (.memo { m with hits := m.hits + 1 }) := by
    obtain ⟨series, price⟩ := found held
    have hit := Cached.run_fetch_kept price (pure (bars.price source))
    obtain ⟨m', run, -⟩ := run_priceSeries free met source tidy
    obtain ⟨rfl, -⟩ := Prod.mk.inj (hit.symm.trans run)
    rw [Cached.run_bind, priceSeries, hit]
  cases h with
  | onPrice source i =>
      obtain ⟨series, answer⟩ := found (kept _ (List.mem_cons_of_mem _ List.mem_cons_self))
      refine ⟨series, answer, (afterPrice (kept _ List.mem_cons_self)).trans ?_⟩
      exact Cached.run_fetch_kept (m := { m with hits := m.hits + 1 }) answer _
  | onBars i =>
      obtain ⟨series, answer⟩ := found (kept _ List.mem_cons_self)
      exact ⟨series, answer, Cached.run_fetch_kept answer _⟩
  | onOutput source b output =>
      obtain ⟨series, answer⟩ := found (kept _ (List.mem_cons_of_mem _ List.mem_cons_self))
      refine ⟨series, answer, (afterPrice (kept _ List.mem_cons_self)).trans ?_⟩
      have hit := Memo.lookup_some (m := { m with hits := m.hits + 1 }) answer
      have named : b.names.contains output = true := by simpa using accepted.2
      rw [Bundle.cachedOutput, if_pos named, asks, if_pos accepted.2, Cached.run_bind, Cached.run_bind,
        Cached.find, Cached.run, Cache.lookup]
      simp only [answerKey] at hit
      rw [hit]
      rfl

/-! ## The ledger -/

namespace Ledger

/-- Nothing is computed twice on the memo of the ledger. -/
structure ComputedOnce (l : Ledger α) : Prop where
  /-- No lookup of a key fails twice. -/
  once : l.failed.Nodup
  /-- What an evaluation looks up in vain is kept when it ends. -/
  stored : ∀ e : Evaluation α, ∀ k ∈ e.answer.failed l.memo,
    (e.answer.after l.memo).contains k = true
  /-- What was looked up in vain is kept. -/
  kept : ∀ k ∈ l.failed, l.memo.contains k = true
  /-- The misses are the lookups that failed. -/
  misses : l.memo.misses = l.failed.length
  misses_le : l.memo.misses ≤ l.memo.entries.length
  together : ∀ (b : Bundle α) (data : Series α), l.memo.AllOrNone b data
  /-- A handler of the catalog that was executed is not computed again. -/
  again : ∀ {name : String} {config : Json α} {h : Handler α} {bars : Bars α},
    Catalog.create name config = .ok h → .execute h bars ∈ l.evaluated → l.memo.Answers h bars

/-- The memo is tidy, each of its misses is a key that failed once and is kept since, and so is
whatever the executions looked up. -/
structure Settled (known : Set (Bars α)) (l : Ledger α) : Prop where
  tidy : l.memo.Tidy known
  once : l.failed.Nodup
  kept : ∀ k ∈ l.failed, ¬ l.memo.Lacks k
  misses : l.memo.misses = l.failed.length
  executed : ∀ h bars, .execute h bars ∈ l.evaluated → bars ∈ known ∧
    (h.Accepted → ∀ k ∈ h.lookups bars, ¬ l.memo.Lacks k)

theorem settled_start : (start : Ledger α).Settled known where
  tidy := .empty
  once := List.nodup_nil
  kept _ member := absurd member List.not_mem_nil
  misses := rfl
  executed _ _ member := absurd member List.not_mem_nil

namespace Settled

variable {l : Ledger α}

/-- What an evaluation looks up in vain is kept when it ends, even over bars that are not known. -/
theorem stored (settled : l.Settled known) (e : Evaluation α) {k : CacheKey}
    (failed : k ∈ e.answer.failed l.memo) : ¬ (e.answer.after l.memo).Lacks k := by
  obtain ⟨ops, settles⟩ := e.settles (Set.mem_univ e.bars)
  obtain ⟨b, m, run, -, -, -, kept⟩ := settles l.memo (settled.tidy.mono (Set.subset_univ known))
  exact Cached.after_eq run ▸ (kept k failed).2

theorem evaluate (free : Set.InjOn SourceId.ofBars known) (settled : l.Settled known)
    {e : Evaluation α} (met : e.bars ∈ known) : (l.step (.evaluate e)).Settled known := by
  obtain ⟨ops, settles⟩ := e.settles met
  obtain ⟨b, m, run, -, tidy, once, -⟩ := settles l.memo settled.tidy
  obtain rfl := Cached.after_eq run
  refine ⟨tidy, ?_, ?_, ?_, ?_⟩
  · -- what fails now was absent, so it did not fail before
    refine settled.once.append once fun k early late => ?_
    exact settled.kept k early (Cached.lacks_of_failed late)
  · intro k member
    rcases List.mem_append.mp member with early | late
    · exact fun lacks => settled.kept k early (Cached.lacks_of_after lacks)
    · exact settled.stored e late
  · show (e.answer.after l.memo).misses = (l.failed ++ e.answer.failed l.memo).length
    rw [Cached.misses_after, settled.misses, List.length_append]
  · intro h bars member
    rcases List.mem_append.mp member with early | here
    · obtain ⟨met', kept⟩ := settled.executed h bars early
      exact ⟨met', fun accepted k looked lacks =>
        kept accepted k looked (Cached.lacks_of_after lacks)⟩
    · obtain rfl := List.mem_singleton.mp here
      exact ⟨met, fun accepted => Handler.kept_of_execute free accepted met settled.tidy⟩

theorem run (free : Set.InjOn SourceId.ofBars known) (settled : l.Settled known)
    {steps : List (Step α)} (met : ∀ e, .evaluate e ∈ steps → e.bars ∈ known) :
    (steps.foldl Ledger.step l).Settled known := by
  induction steps generalizing l with
  | nil => exact settled
  | cons s rest ih =>
      have later : ∀ e, .evaluate e ∈ rest → e.bars ∈ known := fun e member =>
        met e (List.mem_cons_of_mem _ member)
      cases s with
      | evaluate e => exact ih (settled.evaluate free (met e List.mem_cons_self)) later
      | clear => exact ih settled_start later

/-- Each key that failed has an entry of its own. -/
theorem misses_le (settled : l.Settled known) : l.memo.misses ≤ l.memo.entries.length := by
  have keys : l.failed ⊆ l.memo.entries.map Prod.fst := by
    intro k member
    have kept := settled.kept k member
    simp only [Memo.Lacks, not_forall, not_not] at kept
    obtain ⟨series, held⟩ := kept
    exact List.mem_map.mpr ⟨(k, series), held, rfl⟩
  rw [settled.misses, ← List.length_map Prod.fst]
  exact (settled.once.subperm keys).length_le

theorem computedOnce (free : Set.InjOn SourceId.ofBars known) (settled : l.Settled known) :
    l.ComputedOnce where
  once := settled.once
  stored e k failed := Memo.contains_iff.mpr (settled.stored e failed)
  kept k failed := Memo.contains_iff.mpr (settled.kept k failed)
  misses := settled.misses
  misses_le := settled.misses_le
  together := settled.tidy.together
  again built executed := by
    have accepted := Catalog.accepted_of_create built
    obtain ⟨met, kept⟩ := settled.executed _ _ executed
    exact Handler.answers_of_kept free accepted met settled.tidy (kept accepted)

end Settled

end Ledger

namespace Session

/-- The bars that a session goes through. -/
def bars (steps : List (Step α)) : List (Bars α) := steps.flatMap Step.bars

omit [Scalar α] [Fingerprint α] in
theorem mem_bars {steps : List (Step α)} {e : Evaluation α} (member : .evaluate e ∈ steps) :
    e.bars ∈ bars steps :=
  List.mem_flatMap.mpr ⟨_, member, List.mem_singleton_self _⟩

/-- Whenever a session on one memo is between two steps, nothing was computed twice since the
memo was last empty. All that it takes is that no two of the bars have one identity. -/
theorem computed_once (steps : List (Step α))
    (free : Set.InjOn SourceId.ofBars {b | b ∈ bars steps}) :
    (Session.run steps (.memo .empty)).2 = .memo (ledger steps).memo ∧
      (ledger steps).ComputedOnce :=
  ⟨run_snd steps .start,
    (Ledger.settled_start.run free fun _ member => mem_bars member).computedOnce free⟩

/-- Since the last clear the cascade was computed over a single bar, where its stages are alike and
the second one is found, and over three. -/
theorem computed_once_gap :
    Set.InjOn SourceId.ofBars {b | b ∈ bars gapSteps} ∧
      (Session.run gapSteps (.memo .empty)).2 = .memo (ledger gapSteps).memo ∧
      (ledger gapSteps).ComputedOnce ∧
      (ledger gapSteps).memo.stats = ⟨1, 7, 7⟩ := by
  have free : Set.InjOn SourceId.ofBars {b | b ∈ bars gapSteps} := by
    show ∀ b ∈ bars gapSteps, ∀ b' ∈ bars gapSteps, _ → _
    decide +kernel
  obtain ⟨run, once⟩ := computed_once gapSteps free
  exact ⟨free, run, once, by decide +kernel⟩

end Session

end Chartist
