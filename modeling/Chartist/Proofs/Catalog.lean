import Chartist.Catalog.Entry

/-!
# What the catalog builds

A handler that comes out of the catalog has passed the checks of its indicator
(`Handler.Accepted`), whatever name and configuration it was built from.
-/

namespace Chartist

open Json

variable {α : Type} [Scalar α]

/-- The handler has passed the checks of its indicator. -/
def Handler.Accepted : Handler α → Prop
  | .onPrice _ indicator => indicator.validate = .ok ()
  | .onBars indicator => (indicator.validate : Except (StudyError α) Unit) = .ok ()
  | .onOutput _ bundle output => bundle.validate = .ok () ∧ output ∈ bundle.names

omit [Scalar α] in
/-- Of checks in turn that pass, the first one passes and so does the rest. -/
theorem exists_of_bind_ok {ε σ τ : Type} {x : Except ε σ} {f : σ → Except ε τ} {b : τ}
    (done : x >>= f = .ok b) : ∃ a, x = .ok a ∧ f a = .ok b := by
  cases x with
  | error e => exact absurd done (by simp [bind, Except.bind])
  | ok a => exact ⟨a, rfl, done⟩

omit [Scalar α] in
/-- What is returned after its check is unchanged and has passed. -/
theorem passed_of_checked {ε τ : Type} {check : Except ε Unit} {x y : τ}
    (done : (check >>= fun _ => pure x) = .ok y) : check = .ok () ∧ y = x := by
  obtain ⟨_, passed, same⟩ := exists_of_bind_ok done
  cases same
  exact ⟨passed, rfl⟩

omit [Scalar α] in
theorem require_ok {condition : Bool} {fault : ParameterFault α} {u : Unit}
    (passed : require condition fault = .ok u) : condition = true := by
  unfold require at passed
  split at passed
  · assumption
  · cases passed

omit [Scalar α] in
theorem checkPeriod_pos {name : String} {period value : Nat}
    (passed : (checkPeriod name period : Except (StudyError α) Nat) = .ok value) : 0 < period := by
  unfold checkPeriod at passed
  split at passed
  · cases passed
  · omega

namespace Catalog

theorem accepted_onPrice {source : PriceSource} {i : SeriesIndicator α} {h : Handler α}
    (built : onPrice source i = .ok h) : h.Accepted := by
  obtain ⟨i', checked, made⟩ := exists_of_bind_ok built
  obtain ⟨valid, rfl⟩ := passed_of_checked checked
  cases made
  exact valid

theorem accepted_onBars {i : BarIndicator} {h : Handler α}
    (built : onBars i = .ok h) : h.Accepted := by
  obtain ⟨i', checked, made⟩ := exists_of_bind_ok built
  obtain ⟨valid, rfl⟩ := passed_of_checked checked
  cases made
  exact valid

theorem accepted_onOutput {source : PriceSource} {b : Bundle α} {output : String} {h : Handler α}
    (built : onOutput source b output = .ok h) : h.Accepted := by
  obtain ⟨b', checked, made⟩ := exists_of_bind_ok built
  obtain ⟨valid, rfl⟩ := passed_of_checked checked
  obtain ⟨_, known, made⟩ := exists_of_bind_ok made
  cases made
  exact ⟨valid, by simpa using require_ok known⟩

/-- Whatever is built in this way has a property. -/
def Careful (property : Handler α → Prop) (build : Builder α) : Prop :=
  ∀ config h, build config = .ok h → property h

omit [Scalar α] in
theorem careful_building {C : Type} {form : Form α C}
    {build : C → Except (StudyError α) (Handler α)} {property : Handler α → Prop}
    (careful : ∀ c h, build c = .ok h → property h) : Careful property (building form build) := by
  intro config h built
  obtain ⟨c, -, made⟩ := exists_of_bind_ok built
  exact careful c h made

/-- What every way to build takes care of is so of all that the catalog builds. -/
theorem property_of_create {property : Handler α → Prop}
    (careful : ∀ name (build : Builder α), builder? name = some build → Careful property build)
    {name : String} {config : Json α} {h : Handler α} (built : create name config = .ok h) :
    property h := by
  unfold create at built
  split at built
  next build known => exact careful name build known config h built
  next => cases built

/-- Every way to build ends in one of three ways, each of them with a check. -/
theorem careful_builder (name : String) (build : Builder α) (known : builder? name = some build) :
    Careful Handler.Accepted build := by
  unfold builder? at known
  split at known
  case h_32 => cases known
  all_goals
    cases known
    first
    | exact careful_building fun _ _ => accepted_onPrice
    | exact careful_building fun _ _ => accepted_onBars
    | exact careful_building fun _ _ => accepted_onOutput

/-- What the catalog builds is accepted. -/
theorem accepted_of_create {name : String} {config : Json α} {h : Handler α}
    (built : create name config = .ok h) : h.Accepted :=
  property_of_create careful_builder built

end Catalog

end Chartist
