import Chartist.Proofs.Catalog
import Chartist.Proofs.Catalog.Layout
import Chartist.Proofs.Whole

/-!
# Configurations in part

The entries of the catalog and its ways to build line up: each entry shows the default of the kind
of configuration from which its handlers are built (`Catalog.linesUp_entries`), and nothing is built
of another name (`Catalog.mem_of_builder`).

So any part of the default configuration of an entry builds the same as the whole of it with that
part laid over, a member that the default does not have is refused, and only a name without an entry
is unknown (`Catalog.create_completes`).
-/

namespace Chartist

open Json Window Chartist.Filter Adaptive

variable {α : Type} [Scalar α]

/-! ## Checks of an indicator that was found -/

/-- Nothing is said of an unknown indicator. -/
def Found {τ : Type} (x : Except (StudyError α) τ) : Prop :=
  ∀ name, x ≠ .error (.unknownIndicator name)

section

variable {τ σ : Type}

omit [Scalar α]

@[simp]
theorem found_ok (a : τ) : Found (.ok a : Except (StudyError α) τ) := fun _ same => nomatch same

@[simp]
theorem found_pure (a : τ) : Found (pure a : Except (StudyError α) τ) := found_ok a

@[simp]
theorem found_bind {x : Except (StudyError α) σ} {f : σ → Except (StudyError α) τ} :
    Found (x >>= f) ↔ Found x ∧ ∀ a, x = .ok a → Found (f a) := by
  cases x with
  | error e => simp [Found, bind, Except.bind]
  | ok a => simp [Found, bind, Except.bind]

@[simp]
theorem found_map {x : Except (StudyError α) σ} {f : σ → τ} : Found (f <$> x) ↔ Found x := by
  cases x with
  | error e => simp [Found, Functor.map, Except.map]
  | ok a => simp [Found, Functor.map, Except.map]

@[simp]
theorem found_checkPeriod (name : String) (value : Nat) :
    Found (checkPeriod name value : Except (StudyError α) Nat) := by
  intro n
  unfold checkPeriod
  split <;> simp

@[simp]
theorem found_require (condition : Bool) (fault : ParameterFault α) :
    Found (require condition fault) := by
  intro n
  unfold require
  split <;> simp

end

@[simp]
theorem found_checkRange (name : String) (value min max : α) :
    Found (checkRange name value min max) := by
  intro n
  unfold checkRange
  split <;> simp

@[simp]
theorem found_checkCount (name : String) (value min max : Nat) :
    Found (checkCount name value min max : Except (StudyError α) Nat) := by
  intro n
  unfold checkCount
  split <;> simp

theorem Window.Kernel.found_validate (kernel : Kernel) (length : Nat) :
    Found (kernel.validate length : Except (StudyError α) Unit) := by
  refine found_bind.mpr ⟨found_checkPeriod _ _, fun _ _ n => ?_⟩
  split <;> simp

theorem Filter.Cascade.found_validate (cascade : Cascade) :
    Found (cascade.validate : Except (StudyError α) Unit) := by
  cases cascade <;> simp [validate]

theorem Filter.PoleDesign.found_checkedFilter (design : PoleDesign) (period : Nat) :
    Found (design.checkedFilter period : Except (StudyError α) (LinearFilter α)) := by
  simp [checkedFilter, LinearFilter.checked]

omit [Scalar α] in
theorem Adaptive.Rule.found_validate (rule : Rule) :
    Found (rule.validate : Except (StudyError α) Unit) := by
  cases rule <;> simp [validate]

theorem SeriesIndicator.found_checkGamma (gamma : α) : Found (checkGamma gamma) := by
  intro n
  unfold checkGamma
  split <;> simp

theorem SeriesIndicator.found_validate (indicator : SeriesIndicator α) :
    Found indicator.validate := by
  cases indicator <;>
    simp [validate, checkPositive, found_checkGamma, Kernel.found_validate, Cascade.found_validate,
      PoleDesign.found_checkedFilter, Rule.found_validate]

omit [Scalar α] in
theorem BarIndicator.found_validate (indicator : BarIndicator) :
    Found (indicator.validate : Except (StudyError α) Unit) := by
  cases indicator <;> simp [validate, checkFractalPeriod, Rule.found_validate]

theorem Bundle.found_validate (bundle : Bundle α) : Found bundle.validate := by
  cases bundle <;> simp [validate]

namespace Catalog

theorem found_onPrice (source : PriceSource) (indicator : SeriesIndicator α) :
    Found (onPrice source indicator) := by
  simp [onPrice, SeriesIndicator.checked, indicator.found_validate]

omit [Scalar α] in
theorem found_onBars (indicator : BarIndicator) :
    Found (onBars indicator : Except (StudyError α) (Handler α)) := by
  simp [onBars, BarIndicator.checked, indicator.found_validate]

theorem found_onOutput (source : PriceSource) (bundle : Bundle α) (output : String) :
    Found (onOutput source bundle output) := by
  simp [onOutput, Bundle.checked, Handler.outputOf, bundle.found_validate]

/-! ## Configurations of a form -/

section

omit [Scalar α]

variable {C : Type} {fields : List (Field α C)} {form : Form α C} {default : C}

theorem found_readConfig (config : Json α) : Found (readConfig form config) := by
  have mapped (x : Decoded C) :
      Found (x.mapError fun _ => .invalidConfig : Except (StudyError α) C) := by
    intro name
    cases x <;> simp [Except.mapError]
  exact mapped _

theorem readConfig_unknown (completed : Completed fields form default)
    {members : List (String × Json α)} {key : String} (given : key ∈ members.map Prod.fst)
    (unknown : key ∉ fields.map Field.name) :
    readConfig form (.obj members) = .error .invalidConfig := by
  obtain ⟨e, refused⟩ := completed.decode_unknown given unknown
  simp only [readConfig, refused, Except.mapError]

/-- Members may be laid over those of the default, whether there are fields for them or not. -/
theorem readConfig_overlay (completed : Completed fields form default)
    (members : List (String × Json α)) :
    readConfig form (.obj (overlay (sorted (fields.map (·.member default))) members)) =
      readConfig form (.obj members) := by
  by_cases known : ∀ key ∈ members.map Prod.fst, key ∈ fields.map Field.name
  · simp only [readConfig, completed.decode_overlay known]
  · -- a member without a field is among both, though another one may be found first
    push Not at known
    obtain ⟨key, given, unknown⟩ := known
    rw [readConfig_unknown completed given unknown,
      readConfig_unknown completed (mem_overlay.mpr (.inl given)) unknown]

end

/-! ## Entries and ways to build -/

omit [Scalar α] in
/-- What is built fails for no unknown name, and its configurations are completed by the members of
the default one that the entry shows. -/
structure Completes (e : Entry α) (build : Builder α) (base : List (String × Json α)) : Prop where
  found : ∀ config, Found (build config)
  null : build .null = build (.obj [])
  default : e.defaultConfig = .obj base
  overlay : ∀ members, build (.obj (overlay base members)) = build (.obj members)
  unknown : ∀ members key, key ∈ members.map Prod.fst → key ∉ base.map Prod.fst →
    build (.obj members) = .error .invalidConfig

omit [Scalar α] in
/-- The entry and the way to build are about one kind of configuration. -/
theorem completes_building {C : Type} {fields : List (Field α C)} {form : Form α C} {default : C}
    (completed : Completed fields form default) {name description : String}
    {build : C → Except (StudyError α) (Handler α)} (found : ∀ c, Found (build c)) :
    ∃ base, Completes (register form default name description) (building form build) base := by
  refine ⟨sorted (fields.map (·.member default)), ?_, rfl, ?_, ?_, ?_⟩
  · intro config
    exact found_bind.mpr ⟨found_readConfig config, fun c _ => found c⟩
  · exact completed.encode default
  · intro members
    exact congrArg (· >>= build) (readConfig_overlay completed members)
  · intro members key given unknown
    have refused := readConfig_unknown completed given
      (mt (completed.laidOut.mem_names default).mpr unknown)
    exact congrArg (· >>= build) refused

/-- The handlers of the entry are built from configurations of the kind that it shows. -/
def LinesUp (e : Entry α) : Prop := ∃ build base, builder? e.name = some build ∧ Completes e build base

theorem linesUp {e : Entry α} {build : Builder α} (named : builder? e.name = some build)
    (completes : ∃ base, Completes e build base) : LinesUp e :=
  let ⟨base, completes⟩ := completes
  ⟨build, base, named, completes⟩

theorem linesUp_onPeriod {name : String} (description : String)
    {indicator : Nat → SeriesIndicator α} (named : builder? name = some (onPeriod indicator)) :
    LinesUp (register PeriodConfig.form {} name description : Entry α) :=
  linesUp named (completes_building PeriodConfig.completed fun _ => found_onPrice _ _)

theorem linesUp_onBarPeriod {name : String} (description : String) {indicator : Nat → BarIndicator}
    (named : builder? name = some (onBarPeriod indicator : Builder α)) :
    LinesUp (register BarPeriodConfig.form {} name description : Entry α) :=
  linesUp named (completes_building BarPeriodConfig.completed fun _ => found_onBars _)

theorem linesUp_onGamma {name : String} (description : String) {indicator : α → SeriesIndicator α}
    (named : builder? name = some (onGamma indicator)) :
    LinesUp (register GammaConfig.form { gamma := 0.5 } name description : Entry α) :=
  linesUp named (completes_building GammaConfig.completed fun _ => found_onPrice _ _)

/-- The entries and the ways to build line up. -/
theorem linesUp_entries : ∀ e ∈ (entries : List (Entry α)), LinesUp e := by
  simp only [entries, List.forall_mem_cons]
  exact ⟨linesUp_onBarPeriod _ rfl,
    linesUp rfl (completes_building BollingerConfig.completed fun _ => found_onOutput _ _ _),
    linesUp_onPeriod _ rfl, linesUp_onPeriod _ rfl, linesUp_onPeriod _ rfl, linesUp_onPeriod _ rfl,
    linesUp rfl (completes_building DonchianConfig.completed fun _ => found_onBars _),
    linesUp_onPeriod _ rfl,
    linesUp rfl (completes_building FractalConfig.completed fun _ => found_onBars _),
    linesUp rfl (completes_building KalmanConfig.completed fun _ => found_onPrice _ _),
    linesUp rfl (completes_building EfficiencyConfig.completed fun _ => found_onPrice _ _),
    linesUp_onGamma _ rfl, linesUp_onGamma _ rfl, linesUp_onPeriod _ rfl,
    linesUp rfl (completes_building AverageConfig.completed fun _ => found_onPrice _ _),
    linesUp rfl (completes_building MacdConfig.completed fun _ => found_onOutput _ _ _),
    linesUp_onPeriod _ rfl,
    linesUp rfl (completes_building DeepConfig.completed fun _ => found_onPrice _ _),
    linesUp rfl (completes_building RankConfig.completed fun _ => found_onPrice _ _),
    linesUp_onPeriod _ rfl, linesUp_onPeriod _ rfl, linesUp_onPeriod _ rfl, linesUp_onPeriod _ rfl,
    linesUp_onPeriod _ rfl, linesUp_onBarPeriod _ rfl, linesUp_onPeriod _ rfl,
    linesUp_onPeriod _ rfl,
    linesUp rfl (completes_building EmptyConfig.completed fun _ => found_onBars _),
    linesUp_onPeriod _ rfl,
    linesUp rfl (completes_building VolatilityConfig.completed fun _ => found_onBars _),
    linesUp rfl (completes_building MomentumConfig.completed fun _ => found_onPrice _ _),
    fun _ member => absurd member List.not_mem_nil⟩

/-- Handlers are built of no name but those of the entries. -/
theorem mem_of_builder {name : String} {build : Builder α} (known : builder? name = some build) :
    mem α name = true := by
  unfold builder? at known
  split at known
  case h_32 => cases known
  all_goals rfl

/-! ## The catalog -/

/-- The members of the default configuration of a name. -/
def defaults (name : String) : List (String × Json α) :=
  match (get? name).map fun e : Entry α => e.defaultConfig with
  | some (.obj base) => base
  | _ => []

theorem mem_eq_isSome (name : String) :
    mem α name = (get? name : Option (Entry α)).isSome := by
  rw [mem, get?, Bool.eq_iff_iff, List.find?_isSome, List.any_eq_true]

/-- A name with an entry is completed by its default, and so is what the catalog does with it. -/
theorem completes_of_mem {name : String} (known : mem α name = true) :
    ∃ (e : Entry α) (build : Builder α), Completes e build (defaults name) ∧ get? name = some e ∧
      builder? name = some build ∧ (∀ config, create name config = build config) ∧
      createDefault name = build e.defaultConfig := by
  rw [mem_eq_isSome, Option.isSome_iff_exists] at known
  obtain ⟨e, found⟩ := known
  have named : e.name = name := by simpa using List.find?_some found
  obtain ⟨build, base, built, completes⟩ := linesUp_entries e (List.mem_of_find?_eq_some found)
  rw [named] at built
  have same : defaults name = base := by
    simp only [defaults, found, Option.map_some, completes.default]
  refine ⟨e, build, same ▸ completes, found, built, fun config => ?_, ?_⟩
  · simp only [create, built]
  · simp only [createDefault, find, found, create, built]
    rfl

/-- Nothing is built of a name without an entry. -/
theorem builder_unknown {name : String} (unknown : mem α name = false) :
    (builder? name : Option (Builder α)) = none := by
  cases built : (builder? name : Option (Builder α)) with
  | none => rfl
  | some build => rw [mem_of_builder built] at unknown; cases unknown

theorem create_unknown {name : String} (unknown : mem α name = false) (config : Json α) :
    create name config = .error (.unknownIndicator name) := by
  simp only [create, builder_unknown unknown]

theorem createDefault_unknown {name : String} (unknown : mem α name = false) :
    createDefault name = (.error (.unknownIndicator name) : Except (StudyError α) (Handler α)) := by
  rw [mem_eq_isSome, Option.isSome_eq_false_iff, Option.isNone_iff_eq_none] at unknown
  simp only [createDefault, find, unknown]
  rfl

/-- Whatever is wrong with a configuration, the entry that it is for is known. -/
theorem found_create {name : String} (known : mem α name = true) (config : Json α) :
    Found (create name config) := by
  obtain ⟨e, build, completes, -, -, create, -⟩ := completes_of_mem known
  rw [create]
  exact completes.found config

/-- A configuration that is null or empty stands for the default one. -/
theorem create_empty (name : String) :
    create name (.null : Json α) = createDefault name ∧
      create name (.obj [] : Json α) = createDefault name := by
  cases known : mem α name with
  | false =>
      rw [create_unknown known, create_unknown known, createDefault_unknown known]
      exact ⟨rfl, rfl⟩
  | true =>
      obtain ⟨e, build, completes, -, -, create, createDefault⟩ := completes_of_mem known
      -- The default configuration has no members laid over its own.
      have whole : build e.defaultConfig = build (.obj []) := by
        rw [completes.default]
        exact completes.overlay []
      rw [create, create, createDefault, completes.null, whole]
      exact ⟨rfl, rfl⟩

/-- Only a name without an entry is unknown. A configuration that is null or empty stands for the
default one; one with some members builds, or fails to build, the same as the default one with these
members laid over; and one with a member that the default does not have is invalid. -/
theorem create_completes (name : String) :
    (∀ config : Json α,
      (∃ n, create name config = .error (.unknownIndicator n)) ↔ mem α name = false) ∧
    create name (.null : Json α) = createDefault name ∧
    create name (.obj [] : Json α) = createDefault name ∧
    (mem α name = true →
      (∃ e : Entry α, get? name = some e ∧ e.defaultConfig = .obj (defaults name)) ∧
      ∀ members : List (String × Json α),
        create name (.obj members) = create name (.obj (overlay (defaults name) members)) ∧
        ∀ key ∈ members.map Prod.fst, key ∉ (defaults name : List (String × Json α)).map Prod.fst →
          create name (.obj members) = .error .invalidConfig) := by
  refine ⟨fun config => ⟨?_, fun unknown => ⟨name, create_unknown unknown config⟩⟩,
    (create_empty name).1, (create_empty name).2, fun known => ?_⟩
  · rintro ⟨n, unknown⟩
    cases known : mem α name with
    | false => rfl
    | true => exact absurd unknown (found_create known config n)
  · obtain ⟨e, build, completes, found, -, create, -⟩ := completes_of_mem known
    refine ⟨⟨e, found, completes.default⟩, fun members => ?_⟩
    simp only [create]
    exact ⟨(completes.overlay members).symm, completes.unknown members⟩

/-- An average of which only the slow end is given, and one with a member that it does not have. -/
theorem create_completes_whole :
    let name := "kama"
    let slow : List (String × Json Whole) := [("slow", .int 40)]
    let deep : List (String × Json Whole) := [("slow", .int 40), ("depth", .int 3)]
    mem Whole name = true ∧
      create name (.obj slow) = create name (.obj (overlay (defaults name) slow)) ∧
      "depth" ∈ deep.map Prod.fst ∧
      "depth" ∉ (defaults name : List (String × Json Whole)).map Prod.fst ∧
      create name (.obj deep) = .error .invalidConfig := by
  have known : mem Whole "kama" = true := by decide
  have unknown : "depth" ∉ (defaults "kama" : List (String × Json Whole)).map Prod.fst := by decide
  have completed := ((create_completes (α := Whole) "kama").2.2.2 known).2
  exact ⟨known, (completed _).1, by decide, unknown, (completed _).2 "depth" (by decide) unknown⟩

end Catalog

end Chartist
