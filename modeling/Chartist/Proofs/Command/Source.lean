import Chartist.Command.Program
import Chartist.Proofs.Catalog.Completion

/-!
# The price of the settings

A request without parameters is answered by the handler that the catalog builds by default, on the
price of the settings in place of its own (`Command.report_without_params`). That is the handler
itself for every name but that of the fractal average, whose own price is not the close.
-/

namespace Chartist

open Json Catalog

/-! ## The price that is read -/

/-- The price that an indicator on bars takes off them. -/
def BarIndicator.source? : BarIndicator → Option PriceSource
  | .volatilityAverage _ _ _ _ source | .fractalAverage _ source => some source
  | _ => none

/-- The indicator on another price, if it takes one off the bars. -/
def BarIndicator.reading (source : PriceSource) : BarIndicator → BarIndicator
  | .volatilityAverage period short long measure _ =>
    .volatilityAverage period short long measure source
  | .fractalAverage period _ => .fractalAverage period source
  | other => other

variable {α : Type}

namespace Handler

/-- The indicator is one on a series, the price being its only input. -/
def onSeries : Handler α → Bool
  | .onBars _ => false
  | _ => true

/-- The price that a handler reads. -/
def source? : Handler α → Option PriceSource
  | .onPrice source _ | .onOutput source _ _ => some source
  | .onBars indicator => indicator.source?

/-- The handler on another price, if it reads one. -/
def reading (source : PriceSource) : Handler α → Handler α
  | .onPrice _ indicator => .onPrice source indicator
  | .onBars indicator => .onBars (indicator.reading source)
  | .onOutput _ bundle output => .onOutput source bundle output

/-- Only the price that a handler reads already leaves it as it is. -/
theorem reading_eq_iff (h : Handler α) (s : PriceSource) :
    h.reading s = h ↔ ∀ own, h.source? = some own → s = own := by
  cases h with
  | onPrice source indicator => simp [reading, source?]
  | onOutput source bundle output => simp [reading, source?]
  | onBars indicator =>
      cases indicator <;> simp [reading, source?, BarIndicator.reading, BarIndicator.source?]

end Handler

/-! ## Entries with a price filled in -/

variable [Scalar α]

namespace Catalog

/-- The checks of an indicator do not look at the price. -/
theorem onPrice_reading (own s : PriceSource) (i : SeriesIndicator α) :
    onPrice s i = Handler.reading s <$> onPrice own i := by
  unfold onPrice
  cases i.checked <;> rfl

omit [Scalar α] in
theorem onBars_reading (s : PriceSource) (i : BarIndicator) :
    (onBars (i.reading s) : Except (StudyError α) (Handler α)) =
      Handler.reading s <$> onBars i := by
  have same : (i.reading s).validate = (i.validate : Except (StudyError α) Unit) := by
    cases i <;> rfl
  unfold onBars BarIndicator.checked
  rw [same]
  cases (i.validate : Except (StudyError α) Unit) <;> rfl

theorem onOutput_reading (own s : PriceSource) (b : Bundle α) (output : String) :
    onOutput s b output = Handler.reading s <$> onOutput own b output := by
  have known (b : Bundle α) :
      Handler.outputOf s b output = Handler.reading s <$> Handler.outputOf own b output := by
    unfold Handler.outputOf
    cases require (b.names.contains output) (.unknownOutput b.name output b.names) <;> rfl
  unfold onOutput
  cases b.checked with
  | error e => rfl
  | ok b => exact known b

end Catalog

namespace Command

/-! ## The default handlers by their names -/

/-- The name is that of an indicator on bars. -/
def isOnBars (name : String) : Bool :=
  ["atr", "donchian", "frama", "stochk", "tr", "vama"].contains name

/-- The price that the default handler of a name reads. -/
def ownSource (name : String) : Option PriceSource :=
  if ["atr", "donchian", "stochk", "tr"].contains name then none
  else if name = "frama" then some .median
  else some .close

section

omit [Scalar α]

variable {C : Type} {name description : String} {form : Form α C} {default : C}
  {config : PriceSource → C}

/-- With a price filled in, the default handler of the entry is built on that price. Of itself this
handler reads the price of its name, and the default configuration shows it. -/
structure Priced (e : Entry α) (build : Builder α) : Prop where
  filled : ∀ s, build (withSource s e.defaultConfig (.obj [])) =
    Handler.reading s <$> build (.obj [])
  reads : ∀ h, build (.obj []) = .ok h →
    h.onSeries = !isOnBars e.name ∧ h.source? = ownSource e.name
  shown : e.defaultConfig.get? "source" = (ownSource e.name).map fun own => .str own.name

/-- What is read of no members, and of the one that a price is filled in with. -/
structure Selects (form : Form α C) (default : C) (own : Option PriceSource)
    (config : PriceSource → C) : Prop where
  empty : form.decode (.obj []) = .ok default
  filled : ∀ s, form.decode (withSource s (form.encode default) (.obj [])) = .ok (config s)
  shown : (form.encode default).get? "source" = own.map fun own => .str own.name

/-- Filling in a price makes no other member. -/
theorem withSource_empty (s : PriceSource) (defaults : Json α) :
    ∃ members, withSource s defaults (.obj []) = .obj members := by
  simp only [withSource]
  split
  · exact ⟨_, rfl⟩
  · exact ⟨_, rfl⟩

theorem priced_building (selects : Selects form default (ownSource name) config)
    {build : C → Except (StudyError α) (Handler α)}
    (reading : ∀ s, build (config s) = Handler.reading s <$> build default)
    (reads : ∀ h, build default = .ok h →
      h.onSeries = !isOnBars name ∧ h.source? = ownSource name) :
    Priced (register form default name description) (building form build) := by
  have empty : building form build (.obj []) = build default := by
    simp only [building, readConfig, selects.empty]
    rfl
  refine ⟨?_, ?_, selects.shown⟩
  · intro s
    obtain ⟨members, object⟩ := withSource_empty s (form.encode default)
    have filled := selects.filled s
    rw [object] at filled
    rw [empty, ← reading]
    simp only [building, register, object, readConfig, filled]
    rfl
  · intro h built
    rw [empty] at built
    exact reads h built

theorem priced_onBars {indicator : C → BarIndicator} (config : PriceSource → C)
    (selects : Selects form default (ownSource name) config)
    (reading : ∀ s, indicator (config s) = (indicator default).reading s)
    (reads : isOnBars name = true ∧ (indicator default).source? = ownSource name) :
    Priced (register form default name description)
      (building form fun c => onBars (indicator c)) := by
  apply priced_building selects
  · intro s
    rw [reading, onBars_reading]
  · intro h built
    obtain ⟨i, checked, made⟩ := exists_of_bind_ok built
    obtain ⟨-, rfl⟩ := passed_of_checked checked
    cases made
    exact ⟨by rw [reads.1]; rfl, reads.2⟩

end

section

variable {C : Type} {name description : String} {form : Form α C} {default : C}
  {source : C → PriceSource}

theorem priced_onPrice {indicator : C → SeriesIndicator α} (config : PriceSource → C)
    (selects : Selects form default (ownSource name) config)
    (reading : ∀ s, (source (config s), indicator (config s)) = (s, indicator default))
    (reads : isOnBars name = false ∧ some (source default) = ownSource name) :
    Priced (register form default name description)
      (building form fun c => onPrice (source c) (indicator c)) := by
  apply priced_building selects
  · intro s
    obtain ⟨given, kept⟩ := Prod.mk.inj (reading s)
    rw [given, kept, onPrice_reading]
  · intro h built
    obtain ⟨i, -, made⟩ := exists_of_bind_ok built
    cases made
    exact ⟨by rw [reads.1]; rfl, reads.2⟩

theorem priced_onOutput {bundle : C → Bundle α} {output : C → String} (config : PriceSource → C)
    (selects : Selects form default (ownSource name) config)
    (reading : ∀ s, (source (config s), bundle (config s), output (config s)) =
      (s, bundle default, output default))
    (reads : isOnBars name = false ∧ some (source default) = ownSource name) :
    Priced (register form default name description)
      (building form fun c => onOutput (source c) (bundle c) (output c)) := by
  apply priced_building selects
  · intro s
    obtain ⟨given, kept⟩ := Prod.mk.inj (reading s)
    obtain ⟨bundle_kept, output_kept⟩ := Prod.mk.inj kept
    rw [given, bundle_kept, output_kept, onOutput_reading]
  · intro h built
    obtain ⟨b, -, made⟩ := exists_of_bind_ok built
    obtain ⟨-, -, made⟩ := exists_of_bind_ok made
    cases made
    exact ⟨by rw [reads.1]; rfl, reads.2⟩

theorem priced_onPeriod {name : String} (description : String) (indicator : Nat → SeriesIndicator α)
    (reads : isOnBars name = false ∧ some .close = ownSource name) :
    Priced (register PeriodConfig.form {} name description) (onPeriod indicator) := by
  have shown : (PeriodConfig.form.encode {} : Json α).get? "source" =
      (ownSource name).map fun own => .str own.name := by
    rw [← reads.2]
    rfl
  exact priced_onPrice ({ source := · }) ⟨rfl, fun s => by cases s <;> rfl, shown⟩ (fun _ => rfl)
    reads

end

/-- What is built of the name of an entry takes a price that is filled in for its own. -/
theorem priced_entries : ∀ e ∈ (entries : List (Entry α)), ∃ build, builder? e.name = some build ∧
    Priced e build := by
  simp only [entries, List.forall_mem_cons]
  -- in the order of the catalog, with the configuration that each entry reads of a price alone
  refine ⟨⟨_, rfl, priced_onBars (fun _ => {}) ?_ (fun _ => rfl) ?_⟩,
    ⟨_, rfl, priced_onOutput ({ multiplier := 2, source := · }) ?_ (fun _ => rfl) ?_⟩,
    ⟨_, rfl, priced_onPeriod _ _ ?_⟩, ⟨_, rfl, priced_onPeriod _ _ ?_⟩,
    ⟨_, rfl, priced_onPeriod _ _ ?_⟩, ⟨_, rfl, priced_onPeriod _ _ ?_⟩,
    ⟨_, rfl, priced_onBars (fun _ => {}) ?_ (fun _ => rfl) ?_⟩,
    ⟨_, rfl, priced_onPeriod _ _ ?_⟩,
    ⟨_, rfl, priced_onBars ({ source := · }) ?_ (fun _ => rfl) ?_⟩,
    ⟨_, rfl, priced_onPrice ({ processNoise := 0.01, measurementNoise := 1, source := · }) ?_
      (fun _ => rfl) ?_⟩,
    ⟨_, rfl, priced_onPrice ({ source := · }) ?_ (fun _ => rfl) ?_⟩,
    ⟨_, rfl, priced_onPrice ({ gamma := 0.5, source := · }) ?_ (fun _ => rfl) ?_⟩,
    ⟨_, rfl, priced_onPrice ({ gamma := 0.5, source := · }) ?_ (fun _ => rfl) ?_⟩,
    ⟨_, rfl, priced_onPeriod _ _ ?_⟩,
    ⟨_, rfl, priced_onPrice ({ source := · }) ?_ (fun _ => rfl) ?_⟩,
    ⟨_, rfl, priced_onOutput ({ source := · }) ?_ (fun _ => rfl) ?_⟩,
    ⟨_, rfl, priced_onPeriod _ _ ?_⟩,
    ⟨_, rfl, priced_onPrice ({ source := · }) ?_ (fun _ => rfl) ?_⟩,
    ⟨_, rfl, priced_onPrice ({ source := · }) ?_ (fun _ => rfl) ?_⟩,
    ⟨_, rfl, priced_onPeriod _ _ ?_⟩, ⟨_, rfl, priced_onPeriod _ _ ?_⟩,
    ⟨_, rfl, priced_onPeriod _ _ ?_⟩, ⟨_, rfl, priced_onPeriod _ _ ?_⟩,
    ⟨_, rfl, priced_onPeriod _ _ ?_⟩,
    ⟨_, rfl, priced_onBars (fun _ => {}) ?_ (fun _ => rfl) ?_⟩,
    ⟨_, rfl, priced_onPeriod _ _ ?_⟩, ⟨_, rfl, priced_onPeriod _ _ ?_⟩,
    ⟨_, rfl, priced_onBars (fun _ => {}) ?_ (fun _ => rfl) ?_⟩,
    ⟨_, rfl, priced_onPeriod _ _ ?_⟩,
    ⟨_, rfl, priced_onBars ({ source := · }) ?_ (fun _ => rfl) ?_⟩,
    ⟨_, rfl, priced_onPrice ({ source := · }) ?_ (fun _ => rfl) ?_⟩,
    fun _ member => absurd member List.not_mem_nil⟩
  all_goals
    first
    | exact ⟨rfl, rfl⟩
    | exact ⟨rfl, fun s => by cases s <;> rfl, rfl⟩

/-- Of the indicators on bars, two read a price. -/
theorem own_of_isOnBars {name : String} (onBars : isOnBars name = true) (s : PriceSource) :
    (∀ own, ownSource name = some own → s = own) ↔
      (name = "frama" → s = .median) ∧ (name = "vama" → s = .close) := by
  have listed : name ∈ ["atr", "donchian", "frama", "stochk", "tr", "vama"] := by
    simpa [isOnBars] using onBars
  simp only [List.mem_cons, List.not_mem_nil, or_false] at listed
  rcases listed with rfl | rfl | rfl | rfl | rfl | rfl <;> simp [ownSource]

/-- Where a price is read, it is the close, with one exception. -/
theorem own_close_iff (name : String) :
    (∀ own, ownSource name = some own → .close = own) ↔ name ≠ "frama" := by
  unfold ownSource
  split
  next listed =>
    have other : name ≠ "frama" := by
      rintro rfl
      exact absurd listed (by decide)
    simp [other]
  next =>
    split
    next same => simp [same]
    next other => simp [other]

/-! ## Requests without parameters -/

/-- What a handler answers to a request over the bars that can be loaded, told together with the
parameters that it was built from. -/
def RunRequest.answer (r : RunRequest) (files : Files) (settings : Settings) (params : Json Float)
    (h : Handler Float) : Except Failure String := do
  let bars ← orFail (.bars r.data) (loadBars files (if r.sort then .sort else .strict) r.data)
  let values := evaluate settings.caching h bars
  return match r.output with
    | .text => tableText settings.evaluation.precision bars values
    | .json => documentText r.indicator params bars values

/-- Without parameters the handler is built from those that the settings fill in. -/
theorem report_of_entry {files : Files} {settings : Settings} {r : RunRequest} {e : Entry Float}
    (found : Catalog.get? r.indicator = some e) (bare : r.params = none) :
    let params := withSource settings.evaluation.defaultSource e.defaultConfig (.obj [])
    report files settings r =
      orFail (.invalidParams r.indicator) (create r.indicator params) >>=
        r.answer files settings params := by
  have there : find r.indicator = (.ok e : Except (StudyError Float) (Entry Float)) := by
    simp only [find, found]
  have params : r.params? = .ok (.obj []) := by simp only [RunRequest.params?, bare]
  simp only [report, there, params]
  rfl

/-- A request without parameters is answered by the default handler of its name, after its price was
replaced by the one of the settings. This leaves alone the handlers that read no price or that price
already, but it does not tell the indicators on series from those on bars: of the latter, the
fractal and the volatility-adjusted average lose the price that their own defaults show. With the
close, as in the default settings, that is the fractal average alone. -/
theorem report_without_params (files : Files) (settings : Settings) {r : RunRequest}
    (known : mem Float r.indicator = true) (bare : r.params = none) :
    let s := settings.evaluation.defaultSource
    ∃ e : Entry Float, Catalog.get? r.indicator = some e ∧
      report files settings r = (do
        let h ← orFail (.invalidParams r.indicator) (createDefault r.indicator)
        r.answer files settings (withSource s e.defaultConfig (.obj [])) (h.reading s)) ∧
      ∀ h : Handler Float, createDefault r.indicator = .ok h →
        e.defaultConfig.get? "source" = h.source?.map (fun own => .str own.name) ∧
        (h.reading s = h ↔ ∀ own, h.source? = some own → s = own) ∧
        (h.onSeries = false → (h.reading s = h ↔
          (r.indicator = "frama" → s = .median) ∧ (r.indicator = "vama" → s = .close))) ∧
        (s = .close → (h.reading s = h ↔ r.indicator ≠ "frama")) := by
  intro s
  obtain ⟨e, build, -, found, made, create, -⟩ := completes_of_mem known
  have member : e ∈ (entries : List (Entry Float)) := List.mem_of_find?_eq_some found
  have named : e.name = r.indicator := by simpa using List.find?_some found
  obtain ⟨build', made', filled, reads, shown⟩ := priced_entries e member
  rw [named, made] at made'
  obtain rfl := Option.some.inj made'
  have empty : createDefault r.indicator = build (.obj []) := by
    rw [← (create_empty r.indicator).2, create]
  refine ⟨e, found, ?_, ?_⟩
  · rw [report_of_entry found bare, create, filled, empty]
    cases build (.obj []) <;> rfl
  · intro h built
    rw [empty] at built
    obtain ⟨kind, source⟩ := reads h built
    rw [named] at kind source shown
    have own := h.reading_eq_iff s
    refine ⟨source ▸ shown, own, ?_, ?_⟩
    · intro bars
      have onBars : isOnBars r.indicator = true := by simpa [bars] using kind
      rw [own, source]
      exact own_of_isOnBars onBars s
    · intro close
      rw [own, source, close]
      exact own_close_iff r.indicator

/-- One day, by an average that is on the close anyway. -/
theorem report_without_params_ema :
    let text := "date,open,high,low,close,volume\n2024-01-02,100,104,98,103,10\n"
    let files : Files := fun path => if path = "bars.csv" then some text.toUTF8 else none
    let r : RunRequest := ⟨"ema", "bars.csv", none, false, .text⟩
    mem Float r.indicator = true ∧ r.params = none ∧
      report files {} r = .ok "2024-01-02 00:00:00        103.0000\n" ∧
      ∃ (h : Handler Float) (params : Json Float), createDefault r.indicator = .ok h ∧
        h.reading .close = h ∧ report files {} r = r.answer files {} params h := by
  intro text files r
  have known : mem Float r.indicator = true := by decide
  obtain ⟨e, -, answered, facts⟩ := report_without_params files {} (r := r) known rfl
  have built : createDefault r.indicator = .ok (.onPrice .close (.ema 14) : Handler Float) := rfl
  obtain ⟨-, -, -, close⟩ := facts _ built
  have same := (close rfl).mpr (by decide)
  have printed : report files {} r = .ok "2024-01-02 00:00:00        103.0000\n" := by
    decide +kernel
  refine ⟨known, rfl, printed, _, withSource .close e.defaultConfig (.obj []), built, same, ?_⟩
  rw [answered, built]
  exact congrArg (r.answer files {} _) same

/-- The fractal average of two days, by default on the middle of their ranges, is printed for their
closes. -/
theorem run_fractal_on_close :
    let text := "date,open,high,low,close,volume\n2024-01-02,100,104,98,103,10\n" ++
      "2024-01-03,103,105,101,102,10\n"
    let files : Files := fun path => if path = "bars.csv" then some text.toUTF8 else none
    let r : RunRequest := ⟨"frama", "bars.csv", none, false, .text⟩
    let onMedian : Handler Float := .onBars (.fractalAverage 16 .median)
    createDefault r.indicator = .ok onMedian ∧
      invocation ["run", "--indicator", "frama", "--data", "bars.csv"] [] =
        .ok ⟨none, none, false, .run r⟩ ∧
      Settings.load files none [] = .ok {} ∧
      r.answer files {} (.obj []) onMedian =
        .ok "2024-01-02 00:00:00        101.0000\n2024-01-03 00:00:00        103.0000\n" ∧
      run ["run", "--indicator", "frama", "--data", "bars.csv"] files [] =
        ⟨"2024-01-02 00:00:00        103.0000\n2024-01-03 00:00:00        102.0000\n", .done⟩ := by
  intro text files r onMedian
  refine ⟨rfl, rfl, rfl, ?_, ?_⟩
  · decide +kernel
  · decide +kernel

end Command

end Chartist
