import Chartist.Proofs.Cache.Key
import Chartist.Proofs.Cache.Request
import Chartist.Proofs.Cache.Uncached
import Mathlib.Data.List.Nodup

/-!
# The computations behind a cache

A `Node` is one computation that a cache may hold: a price of bars, an indicator, or all the
outputs of a bundle. Its `results` are what it puts into the cache, its `needs` the nodes
whose results it asks for on the way. What a node needs needs nothing itself
(`needs_of_mem_needs`).

A cache tells nodes apart by the texts of their numbers and the identities of what they run on.
As long as these are told apart among the nodes that are met (`KeyLaws`), no two of the nodes have
results under one key (`KeyLaws.distinct`).
-/

namespace Chartist

open Window Chartist.Filter

/-- A computation whose results a cache may hold. -/
inductive Node (α : Type) where
  | price (bars : Bars α) (source : PriceSource)
  | onSeries (indicator : SeriesIndicator α) (data : Series α)
  | onBars (indicator : BarIndicator) (bars : Bars α)
  | outputs (bundle : Bundle α) (data : Series α)

variable {α : Type} [Scalar α]

/-! ## Keys of outputs -/

omit [Scalar α] in
theorem Bundle.names_nodup (b : Bundle α) : b.names.Nodup := by
  cases b <;> simp [Bundle.names]

omit [Scalar α] in
/-- The name of a bundle tells the names of its outputs. -/
theorem Bundle.names_eq {b c : Bundle α} (same : b.name = c.name) : b.names = c.names := by
  cases b <;> cases c <;> first | rfl | (simp [Bundle.name] at same)

theorem CacheKey.withOutput_inj {key : CacheKey} {o o' : String} :
    key.withOutput o = key.withOutput o' ↔ o = o' := by
  refine ⟨fun same => ?_, congrArg key.withOutput⟩
  have ops : key.op ++ "." ++ o = key.op ++ "." ++ o' := congrArg CacheKey.op same
  exact String.toList_inj.mp (by simpa using congrArg String.toList ops)

omit [Scalar α] in
/-- No bundle has a dot in its name, so the name ends at the first dot. -/
theorem Bundle.output_op_inj {b c : Bundle α} {o o' : String}
    (same : b.name ++ "." ++ o = c.name ++ "." ++ o') : b.name = c.name := by
  have noDot (d : Bundle α) : '.' ∉ d.name.toList := by cases d <;> simp [Bundle.name]
  have chars : b.name.toList ++ '.' :: o.toList = c.name.toList ++ '.' :: o'.toList := by
    simpa using congrArg String.toList same
  exact String.toList_inj.mp (split_at_first (noDot b) (noDot c) chars).1

omit [Scalar α] in
/-- The outputs of a bundle are kept one after the other. -/
theorem Bundle.storeAll_eq (key : CacheKey) (all : List (String × Series α)) :
    Bundle.storeAll key all =
      Cached.keepAll (all.map fun (name, series) => (key.withOutput name, series)) := by
  induction all with
  | nil => rfl
  | cons entry rest ih => exact congrArg (Cached.store (key.withOutput entry.1) entry.2) ih

namespace Node

/-! ## Needs -/

/-- The stages of a cascade. -/
def stages (period : Nat) : Nat → Series α → List (Node α)
  | 0, _ => []
  | depth + 1, data =>
    .onSeries (.ema period) data ::
      stages period depth ((SeriesIndicator.ema period).values data)

/-- The nodes whose results a computation asks for, in turn. -/
def needs : Node α → List (Node α)
  | onSeries (.cascade kind period) data => stages period kind.depth data
  | onBars (.averageTrueRange _) bars => [onBars .trueRange bars]
  | onBars (.volatilityAverage _ _ _ .deviation source) bars => [price bars source]
  | onBars (.volatilityAverage _ _ _ .trueRange source) bars =>
    [price bars source, onBars .trueRange bars]
  | onBars (.fractalAverage _ source) bars =>
    [price bars source, price bars .high, price bars .low]
  | outputs (.macd fast slow signal) data =>
    [onSeries (.ema fast) data, onSeries (.ema slow) data,
      onSeries (.ema signal) (Bundle.difference ((SeriesIndicator.ema fast).values data)
        ((SeriesIndicator.ema slow).values data))]
  | outputs (.bollinger period _) data =>
    [onSeries (.simple period) data, onSeries (.deviation period) data]
  | _ => []

theorem needs_of_mem_stages {period depth : Nat} {data : Series α} {n : Node α}
    (member : n ∈ stages period depth data) : n.needs = [] := by
  induction depth generalizing data with
  | zero => simp [stages] at member
  | succ depth ih =>
      rcases List.mem_cons.mp member with rfl | member
      · rfl
      · exact ih member

/-- What a node needs needs nothing. -/
theorem needs_of_mem_needs {n d : Node α} (member : d ∈ n.needs) : d.needs = [] := by
  unfold needs at member
  split at member
  case h_1 => exact needs_of_mem_stages member
  case h_8 => simp at member
  all_goals
    simp only [List.mem_cons, List.not_mem_nil, or_false] at member
    rcases member with rfl | rfl | rfl <;> rfl

/-- No node needs itself. -/
theorem not_mem_needs (n : Node α) : n ∉ n.needs := by
  intro member
  rw [needs_of_mem_needs member] at member
  exact List.not_mem_nil member

/-- Some nodes and all that they need. -/
def closure (nodes : List (Node α)) : List (Node α) := nodes ++ nodes.flatMap needs

theorem mem_closure {nodes : List (Node α)} {n : Node α} :
    n ∈ closure nodes ↔ n ∈ nodes ∨ ∃ m ∈ nodes, n ∈ m.needs := by
  simp [closure]

/-- The numbers among the parameters. -/
def numbers : Node α → List α
  | price .. | onBars .. => []
  | onSeries indicator _ => indicator.numbers
  | outputs bundle _ => bundle.numbers

/-- The bars that the keys of a node are made from. -/
def bars : Node α → List (Bars α)
  | price bars _ | onBars _ bars => [bars]
  | onSeries .. | outputs .. => []

/-- The series that the keys of a node are made from. -/
def series : Node α → List (Series α)
  | price .. | onBars .. => []
  | onSeries _ data | outputs _ data => [data]

/-- What the keys of some nodes are made from. -/
def contents (nodes : List (Node α)) : Contents α :=
  ⟨{b | ∃ n ∈ nodes, b ∈ n.bars}, {s | ∃ n ∈ nodes, s ∈ n.series}⟩

variable [Fingerprint α]

omit [Scalar α] in
/-- Whether the identities of what some nodes run on collide can be computed. -/
theorem collisionFree_iff {nodes : List (Node α)} :
    Fingerprint.CollisionFree (contents nodes) ↔
      (∀ b ∈ nodes.flatMap bars, ∀ b' ∈ nodes.flatMap bars,
        SourceId.ofBars b = .ofBars b' → b = b') ∧
      ∀ s ∈ nodes.flatMap series, ∀ s' ∈ nodes.flatMap series,
        SourceId.ofSeries s = .ofSeries s' → s = s' := by
  simp only [List.mem_flatMap]
  exact ⟨fun free => ⟨fun b met b' met' => free.bars met met',
      fun s met s' met' => free.series met met'⟩,
    fun apart => ⟨fun b met b' met' => apart.1 b met b' met',
      fun s met s' met' => apart.2 s met s' met'⟩⟩

instance [DecidableEq α] (nodes : List (Node α)) :
    Decidable (Fingerprint.CollisionFree (contents nodes)) :=
  decidable_of_iff' _ collisionFree_iff

/-! ## Results -/

/-- The series that a computation yields, each under its key. -/
def results : Node α → List (CacheKey × Series α)
  | price bars source => [(priceKey bars source, bars.price source)]
  | onSeries indicator data => [(indicator.key data, indicator.values data)]
  | onBars indicator bars => [(indicator.key bars, indicator.values bars)]
  | outputs bundle data =>
    (bundle.outputs data).map fun (name, series) => ((bundle.key data).withOutput name, series)

theorem mem_results_outputs {b : Bundle α} {data : Series α} {k : CacheKey} {s : Series α} :
    (k, s) ∈ (outputs b data).results ↔
      ∃ name, (name, s) ∈ b.outputs data ∧ k = (b.key data).withOutput name := by
  simp only [results, List.mem_map, Prod.mk.injEq, Prod.exists]
  constructor
  · rintro ⟨name, series, member, rfl, rfl⟩
    exact ⟨name, member, rfl⟩
  · rintro ⟨name, member, rfl⟩
    exact ⟨name, s, member, rfl, rfl⟩

/-- A computation yields each of its keys once. -/
theorem results_nodup (n : Node α) : (n.results.map Prod.fst).Nodup := by
  cases n with
  | outputs b data =>
      have keys : (results (outputs b data)).map Prod.fst =
          b.names.map (b.key data).withOutput := by
        rw [← b.map_fst_outputs data, results, List.map_map, List.map_map]
        rfl
      rw [keys]
      exact b.names_nodup.map fun _ _ same => CacheKey.withOutput_inj.mp same
  | _ => exact List.nodup_singleton _

/-- One key of a node holds one series. -/
theorem series_of_key {n : Node α} {k : CacheKey} {s s' : Series α}
    (member : (k, s) ∈ n.results) (member' : (k, s') ∈ n.results) : s = s' :=
  (Prod.mk.inj (List.inj_on_of_nodup_map n.results_nodup member member' rfl)).2

/-- What the operation of a node runs on. -/
def kind : Node α → OpKind
  | price .. => .price
  | onSeries .. => .series
  | onBars .. => .bars
  | outputs .. => .output

theorem opKind_of_mem {n : Node α} {k : CacheKey} {s : Series α} (member : (k, s) ∈ n.results) :
    opKind k.op = n.kind := by
  cases n with
  | price bars source =>
      obtain ⟨rfl, -⟩ := Prod.mk.inj (List.mem_singleton.mp member)
      rfl
  | onSeries i data =>
      obtain ⟨rfl, -⟩ := Prod.mk.inj (List.mem_singleton.mp member)
      exact i.opKind_name
  | onBars i bars =>
      obtain ⟨rfl, -⟩ := Prod.mk.inj (List.mem_singleton.mp member)
      exact i.opKind_name
  | outputs b data =>
      obtain ⟨name, known, rfl⟩ := mem_results_outputs.mp member
      exact b.opKind_output (Bundle.output_known known)

/-- No two of the nodes have results under one key. -/
def Distinct (nodes : Set (Node α)) : Prop :=
  ∀ n ∈ nodes, ∀ n' ∈ nodes, ∀ k s s', (k, s) ∈ n.results → (k, s') ∈ n'.results → n = n'

theorem Distinct.mono {nodes nodes' : Set (Node α)} (distinct : Distinct nodes')
    (subset : nodes ⊆ nodes') : Distinct nodes :=
  fun n member n' member' => distinct n (subset member) n' (subset member')

end Node

/-- What a cache relies on to tell some nodes apart by their keys: the texts of their numbers tell
the numbers and have no comma, and what they run on is told apart by its identity. -/
structure KeyLaws [Fingerprint α] (nodes : List (Node α)) : Prop where
  legible : LegibleOn Scalar.text {x | ∃ n ∈ nodes, x ∈ n.numbers}
  collisionFree : Fingerprint.CollisionFree (Node.contents nodes)

namespace KeyLaws

variable [Fingerprint α] {nodes : List (Node α)}

theorem distinct (laws : KeyLaws nodes) : Node.Distinct {n | n ∈ nodes} := by
  intro n known n' known' k s s' member member'
  have numbers : ∀ x ∈ n.numbers, ∃ n ∈ nodes, x ∈ n.numbers := fun _ found => ⟨n, known, found⟩
  have numbers' : ∀ x ∈ n'.numbers, ∃ n ∈ nodes, x ∈ n.numbers := fun _ found => ⟨n', known', found⟩
  have bars {b b' : Bars α} (found : b ∈ n.bars) (found' : b' ∈ n'.bars)
      (same : SourceId.ofBars b = .ofBars b') : b = b' :=
    laws.collisionFree.bars ⟨n, known, found⟩ ⟨n', known', found'⟩ same
  have series {d d' : Series α} (found : d ∈ n.series) (found' : d' ∈ n'.series)
      (same : SourceId.ofSeries d = .ofSeries d') : d = d' :=
    laws.collisionFree.series ⟨n, known, found⟩ ⟨n', known', found'⟩ same
  have same {key key' : CacheKey} {v v' : Series α} (member : (k, s) ∈ [(key, v)])
      (member' : (k, s') ∈ [(key', v')]) : key = key' :=
    (Prod.mk.inj (List.mem_singleton.mp member)).1.symm.trans
      (Prod.mk.inj (List.mem_singleton.mp member')).1
  -- the operation tells what kind of node it is, then the texts and the source tell which
  have kinds : n.kind = n'.kind :=
    (Node.opKind_of_mem member).symm.trans (Node.opKind_of_mem member')
  cases n <;> cases n' <;> try (simp [Node.kind] at kinds; done)
  case price.price b source b' source' =>
    obtain ⟨-, names, sources⟩ := CacheKey.mk.inj (same member member')
    rw [PriceSource.legible_name.injective names,
      bars (List.mem_singleton_self b) (List.mem_singleton_self b') sources]
  case onSeries.onSeries i data i' data' =>
    obtain ⟨names, params, sources⟩ := CacheKey.mk.inj (same member member')
    rw [SeriesIndicator.eq_of_texts laws.legible numbers numbers' names params,
      series (List.mem_singleton_self data) (List.mem_singleton_self data') sources]
  case onBars.onBars i b i' b' =>
    obtain ⟨names, params, sources⟩ := CacheKey.mk.inj (same member member')
    rw [BarIndicator.eq_of_texts names params,
      bars (List.mem_singleton_self b) (List.mem_singleton_self b') sources]
  case outputs.outputs b data b' data' =>
    obtain ⟨name, -, keyed⟩ := Node.mem_results_outputs.mp member
    obtain ⟨name', -, keyed'⟩ := Node.mem_results_outputs.mp member'
    obtain ⟨ops, params, sources⟩ := CacheKey.mk.inj (keyed.symm.trans keyed')
    rw [Bundle.eq_of_texts laws.legible numbers numbers' (Bundle.output_op_inj ops) params,
      series (List.mem_singleton_self data) (List.mem_singleton_self data') sources]

/-- Laws that hold of everything hold of any nodes. -/
theorem of_all (legible : Legible (Scalar.text : α → String))
    (free : ∀ known : Contents α, Fingerprint.CollisionFree known) (nodes : List (Node α)) :
    KeyLaws nodes :=
  ⟨legible.on _, free _⟩

end KeyLaws

end Chartist
