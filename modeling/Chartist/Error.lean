import Chartist.Scalar

/-!
# Errors of a study

A study is rejected when it is built, before any series is read; nothing fails afterwards.
`StudyError` names the causes, and `StudyError.message` is their one wording.
-/

namespace Chartist

/-- A rule between parameters, or on one of them, that is broken. -/
inductive ParameterFault (α : Type) where
  /-- A window that has to be shorter than another is not; both are named. -/
  | notShorter (shortName : String) (short : Nat) (longName : String) (long : Nat)
  | notPositive (name : String) (value : α)
  | shortFilterPeriod (period : Nat)
  | oddFractalPeriod (period : Nat)
  | noFeedforward
  | infiniteCoefficient
  | unknownMethodCode (code : Nat)
  | unknownMethod (name : String)
  /-- An indicator has no output of that name; it has those of the list. -/
  | unknownOutput (indicator output : String) (outputs : List String)

/-- Why a study cannot be built. -/
inductive StudyError (α : Type) where
  | invalidPeriod (name : String) (value : Nat)
  | invalidParameter (fault : ParameterFault α)
  | outOfRange (name : String) (value min max : α)
  | unknownIndicator (name : String)
  | invalidConfig

variable {α : Type}

/-- A period of at least one. -/
def checkPeriod (name : String) (value : Nat) : Except (StudyError α) Nat :=
  if value = 0 then .error (.invalidPeriod name value) else .ok value

/-- Fails with a fault unless the condition holds. -/
def require (condition : Bool) (fault : ParameterFault α) : Except (StudyError α) Unit :=
  if condition then .ok () else .error (.invalidParameter fault)

variable [Scalar α]

/-- A number of `[min, max]`. -/
def checkRange (name : String) (value min max : α) : Except (StudyError α) α :=
  if Scalar.within min value max then .ok value else .error (.outOfRange name value min max)

/-- A count of `[min, max]`. Counts are exact, so they are compared as such. -/
def checkCount (name : String) (value min max : Nat) : Except (StudyError α) Nat :=
  if min ≤ value ∧ value ≤ max then .ok value
  else .error (.outOfRange name (Scalar.ofCount value) (Scalar.ofCount min) (Scalar.ofCount max))

/-- A list of names between brackets, each in quotes. -/
def quotedList (names : List String) : String :=
  "[" ++ ", ".intercalate (names.map fun n => "\"" ++ n ++ "\"") ++ "]"

/-- The wording of a broken rule. -/
def ParameterFault.message : ParameterFault α → String
  | .notShorter shortName short longName long =>
    s!"{shortName} ({short}) must be shorter than {longName} ({long})"
  | .notPositive name value => s!"{name} must be positive, got {Scalar.text value}"
  | .shortFilterPeriod period => s!"filter period must be at least 2, got {period}"
  | .oddFractalPeriod period => s!"fractal period must be even and at least 2, got {period}"
  | .noFeedforward => "filter needs at least one feedforward coefficient"
  | .infiniteCoefficient => "filter coefficients must be finite"
  | .unknownMethodCode code => s!"unknown MA mode {code}"
  | .unknownMethod name => s!"unknown MA method '{name}'"
  | .unknownOutput indicator output outputs =>
    s!"{indicator} has no output '{output}' (expected one of {quotedList outputs})"

/-- The wording of an error. -/
def StudyError.message : StudyError α → String
  | .invalidPeriod name value => s!"Invalid period for {name}: {value} (must be at least 1)"
  | .invalidParameter fault => s!"Invalid parameter: {fault.message}"
  | .outOfRange name value min max =>
    s!"Parameter out of range: {name} = {Scalar.text value} "
      ++ s!"(valid: {Scalar.text min}..={Scalar.text max})"
  | .unknownIndicator name => s!"Unknown indicator: {name}"
  | .invalidConfig => "Invalid configuration"

/-- The wording of a study's error where errors of several kinds are told apart. -/
def StudyError.wrapped (e : StudyError α) : String := s!"Indicator error: {e.message}"

end Chartist
