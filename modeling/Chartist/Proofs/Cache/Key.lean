import Chartist.Indicator.Handler
import Chartist.Proofs.Cache.Text

/-!
# What a key says

The operation and the parameter text of a key name one indicator: two indicators on one
series agree in both only if they are the same (`SeriesIndicator.eq_of_texts`), and so do
indicators on bars and bundles. Of the numbers among the parameters (`numbers`) this takes that
their texts are legible. Contents are told apart by their identities if no two of them collide
(`Fingerprint.CollisionFree`), which is said of the contents that are met (`Contents`) and no others.

Operations on bars, on series, prices and outputs of bundles never share a name (`opKind`).
-/

namespace Chartist

open Window Chartist.Filter

/-! ## Names of choices -/

theorem AverageMethod.legible_name : Legible AverageMethod.name where
  injective m n same := by
    cases m <;> cases n <;> first | rfl | exact absurd same (by decide)
  plain m := by
    cases m <;> simp [Plain, AverageMethod.name]

theorem PriceSource.legible_name : Legible PriceSource.name where
  injective s t same := by
    cases s <;> cases t <;> first | rfl | exact absurd same (by decide)
  plain s := by
    cases s <;> simp [Plain, PriceSource.name]

theorem VolatilityMeasure.legible_label : Legible VolatilityMeasure.label where
  injective m n same := by
    cases m <;> cases n <;> first | rfl | exact absurd same (by decide)
  plain m := by
    cases m <;> simp [Plain, VolatilityMeasure.label]

theorem ChannelLine.legible_name : Legible ChannelLine.name where
  injective l k same := by
    cases l <;> cases k <;> first | rfl | exact absurd same (by decide)
  plain l := by
    cases l <;> simp [Plain, ChannelLine.name]

/-! ## Contents -/

/-- What identities are made of: some bars and some series. -/
structure Contents (α : Type) where
  bars : Set (Bars α)
  series : Set (Series α)

namespace Contents

variable {α : Type}

/-- Whatever there is. -/
def all : Contents α := ⟨.univ, .univ⟩

end Contents

namespace Fingerprint

variable {α : Type} [Fingerprint α]

/-- Contents of one kind with one identity are equal, among those that are known. Nothing is said
of a series and bars. This is an assumption on the hash: codes of 64 bits cannot keep it for all
contents, and nothing compares the contents themselves. -/
structure CollisionFree (known : Contents α) : Prop where
  bars : Set.InjOn SourceId.ofBars known.bars
  series : Set.InjOn SourceId.ofSeries known.series

/-- Bits that tell numbers apart tell bars apart. -/
theorem flatMap_barWords_injective (word : Function.Injective (SourceId.word : α → Int)) :
    Function.Injective fun bars : Bars α => bars.flatMap SourceId.barWords := by
  intro bars bars' same
  induction bars generalizing bars' with
  | nil =>
      cases bars' with
      | nil => rfl
      | cons b rest => simp [SourceId.barWords] at same
  | cons b rest ih =>
      cases bars' with
      | nil => simp [SourceId.barWords] at same
      | cons b' rest' =>
          obtain ⟨t, o, h, l, c, v⟩ := b
          obtain ⟨t', o', h', l', c', v'⟩ := b'
          simp only [List.flatMap_cons, SourceId.barWords, List.cons_append, List.nil_append,
            List.cons.injEq, word.eq_iff] at same
          obtain ⟨rfl, rfl, rfl, rfl, rfl, rfl, rests⟩ := same
          rw [ih rests]

/-- Codes that tell words apart, made from bits that tell numbers apart, never collide. -/
theorem CollisionFree.of_injective (bits : Function.Injective (Fingerprint.bits : α → Nat))
    (hash : Function.Injective (Fingerprint.hash α)) (known : Contents α) :
    CollisionFree known := by
  have word : Function.Injective (SourceId.word : α → Int) := fun x y same =>
    bits (Int.ofNat_inj.mp same)
  constructor
  · intro bars _ bars' _ same
    exact flatMap_barWords_injective word (List.cons.inj (hash (SourceId.mk.inj same))).2
  · intro data _ data' _ same
    exact List.map_injective_iff.mpr word (List.cons.inj (hash (SourceId.mk.inj same))).2

end Fingerprint

/-! ## Names and parameters of indicators -/

variable {α : Type}

/-- The numbers among the parameters. -/
def SeriesIndicator.numbers : SeriesIndicator α → List α
  | .exponential _ alpha => [alpha]
  | .laguerre gamma | .laguerreRsi gamma => [gamma]
  | .kalman processNoise measurementNoise => [processNoise, measurementNoise]
  | _ => []

/-- The numbers among the parameters. -/
def Bundle.numbers : Bundle α → List α
  | .macd .. => []
  | .bollinger _ multiplier => [multiplier]

variable [Scalar α]

/-- A name and a list of parameters belong to one indicator on series. -/
theorem SeriesIndicator.eq_of_texts {values : Set α} (legible : LegibleOn Scalar.text values)
    {i j : SeriesIndicator α} (known : ∀ x ∈ i.numbers, x ∈ values)
    (known' : ∀ x ∈ j.numbers, x ∈ values) (names : i.name = j.name)
    (params : i.params = j.params) : i = j := by
  rcases i with _ | _ | _ | ⟨_ | _ | _ | _ | _⟩ | _ | ⟨_ | _ | _⟩ | _ | _ | _ | ⟨_ | _ | _⟩ |
      _ | _ | _ | _ | _ | ⟨⟨_, _⟩, _⟩ | _ <;>
    rcases j with _ | _ | _ | ⟨_ | _ | _ | _ | _⟩ | _ | ⟨_ | _ | _⟩ | _ | _ | _ | ⟨_ | _ | _⟩ |
      _ | _ | _ | _ | _ | ⟨⟨_, _⟩, _⟩ | _ <;>
    -- two constructors, or two choices within one, never share a name
    try (simp [SeriesIndicator.name] at names; done)
  case exponential.exponential =>
    simp only [numbers, List.forall_mem_singleton] at known known'
    obtain ⟨periods, rfl⟩ := legible.snoc_inj known known' params
    obtain rfl := legible_nat.injective periods
    rfl
  case cascade.deep.cascade.deep | momentumAverage.momentumAverage =>
    obtain ⟨periods, rfl⟩ := legible_nat.snoc_inj params
    obtain rfl := legible_nat.injective periods
    rfl
  case cascade.double.cascade.double | cascade.triple.cascade.triple =>
    obtain ⟨periods, -⟩ := legible_nat.snoc_inj params
    obtain rfl := legible_nat.injective periods
    rfl
  case average.average =>
    obtain ⟨methods, rfl⟩ := legible_nat.snoc_inj params
    obtain rfl := AverageMethod.legible_name.injective methods
    rfl
  case efficiencyAverage.efficiencyAverage =>
    obtain ⟨fasts, rfl⟩ := legible_nat.snoc_inj params
    obtain ⟨periods, rfl⟩ := legible_nat.snoc_inj fasts
    obtain rfl := legible_nat.injective periods
    rfl
  case laguerre.laguerre | laguerreRsi.laguerreRsi =>
    simp only [numbers, List.forall_mem_singleton] at known known'
    obtain rfl := legible.injective known known' params
    rfl
  case kalman.kalman =>
    simp only [numbers, List.forall_mem_cons] at known known'
    obtain ⟨drifts, rfl⟩ := legible.snoc_inj known.2.1 known'.2.1 params
    obtain rfl := legible.injective known.1 known'.1 drifts
    rfl
  case rank.rank =>
    obtain ⟨histories, rfl⟩ := legible_bool.snoc_inj params
    obtain ⟨lengths, rfl⟩ := legible_nat.snoc_inj histories
    obtain rfl := legible_nat.injective lengths
    rfl
  all_goals
    obtain rfl := legible_nat.injective params
    rfl

/-- A name and a list of parameters belong to one indicator on bars. -/
theorem BarIndicator.eq_of_texts {i j : BarIndicator}
    (names : i.name = j.name) (params : i.params = j.params) : i = j := by
  cases i <;> cases j <;> try (simp [BarIndicator.name] at names; done)
  case trueRange.trueRange => rfl
  case averageTrueRange.averageTrueRange | stochastic.stochastic =>
    obtain rfl := legible_nat.injective params
    rfl
  case volatilityAverage.volatilityAverage =>
    obtain ⟨measures, rfl⟩ := PriceSource.legible_name.snoc_inj params
    obtain ⟨longs, rfl⟩ := VolatilityMeasure.legible_label.snoc_inj measures
    obtain ⟨shorts, rfl⟩ := legible_nat.snoc_inj longs
    obtain ⟨periods, rfl⟩ := legible_nat.snoc_inj shorts
    obtain rfl := legible_nat.injective periods
    rfl
  case fractalAverage.fractalAverage =>
    obtain ⟨periods, rfl⟩ := PriceSource.legible_name.snoc_inj params
    obtain rfl := legible_nat.injective periods
    rfl
  case donchian.donchian =>
    obtain ⟨periods, rfl⟩ := ChannelLine.legible_name.snoc_inj params
    obtain rfl := legible_nat.injective periods
    rfl

/-- A name and a list of parameters belong to one bundle. -/
theorem Bundle.eq_of_texts {values : Set α} (legible : LegibleOn Scalar.text values)
    {b c : Bundle α} (known : ∀ x ∈ b.numbers, x ∈ values) (known' : ∀ x ∈ c.numbers, x ∈ values)
    (names : b.name = c.name) (params : b.params = c.params) : b = c := by
  cases b <;> cases c <;> try (simp [Bundle.name] at names; done)
  case macd.macd =>
    obtain ⟨slows, rfl⟩ := legible_nat.snoc_inj params
    obtain ⟨fasts, rfl⟩ := legible_nat.snoc_inj slows
    obtain rfl := legible_nat.injective fasts
    rfl
  case bollinger.bollinger =>
    simp only [numbers, List.forall_mem_singleton] at known known'
    obtain ⟨periods, rfl⟩ := legible.snoc_inj known known' params
    obtain rfl := legible_nat.injective periods
    rfl

/-! ## Kinds of operations -/

/-- What an operation runs on. -/
inductive OpKind where
  | price
  | series
  | bars
  | output
  deriving DecidableEq

/-- The kind of an operation, told by its name. -/
def opKind (op : String) : OpKind :=
  if op = "PRICE" then .price
  else if op ∈ ["TR", "ATR", "VAMA", "FRAMA", "STOCHK", "DONCHIAN"] then .bars
  else if '.' ∈ op.toList then .output
  else .series

omit [Scalar α] in
theorem SeriesIndicator.opKind_name (i : SeriesIndicator α) : opKind i.name = .series := by
  rcases i with _ | _ | _ | ⟨_ | _ | _ | _ | _⟩ | _ | ⟨_ | _ | _⟩ | _ | _ | _ | ⟨_ | _ | _⟩ <;>
    simp [opKind, SeriesIndicator.name]

theorem BarIndicator.opKind_name (i : BarIndicator) : opKind i.name = .bars := by
  cases i <;> simp [opKind, BarIndicator.name]

omit [Scalar α] in
/-- The operation of an output: the name of the bundle and that of the output. -/
theorem Bundle.opKind_output (b : Bundle α) {output : String} (known : output ∈ b.names) :
    opKind (b.name ++ "." ++ output) = .output := by
  cases b <;> simp only [Bundle.names, List.mem_cons, List.not_mem_nil, or_false] at known <;>
    rcases known with rfl | rfl | rfl | rfl | rfl <;> simp [opKind, Bundle.name]

end Chartist
