import Chartist.Command.Evaluation
import Chartist.Command.Invocation
import Chartist.Command.Report
import Chartist.Csv.Bars
import Chartist.Json.Reader
import Chartist.Settings.Document
import Chartist.Settings.Load

/-!
# The program

The program as a function of its arguments, the files that it can read and the variables
that it sees. The settings are loaded before any command, so faults in them come first; a
run then checks the indicator, its parameters and the bars, in this order.
-/

namespace Chartist.Command

/-- Why a command fails. -/
inductive Failure where
  | settings (path : Option String)
  | unknownIndicator (name : String)
  | paramsNotJson
  | invalidParams (indicator : String)
  | bars (path : String)
  | noDocument
  deriving Repr, DecidableEq

/-- The wording of a failure. -/
def Failure.message : Failure → String
  | .settings (some path) => s!"Failed to load configuration from {path}"
  | .settings none => "Failed to load configuration from environment"
  | .unknownIndicator name => s!"Unknown indicator '{name}'. Run `barwise list`."
  | .paramsNotJson => "Failed to parse --params as JSON"
  | .invalidParams indicator => s!"Invalid configuration for '{indicator}'"
  | .bars path => s!"Failed to load bars from {path}"
  | .noDocument => "Failed to render configuration"

/-- How a run of the program ends. -/
inductive Ending where
  | done
  | failed (failure : Failure)
  /-- The arguments ask for nothing that there is. -/
  | misuse
  deriving Repr, DecidableEq

/-- What a run of the program prints, and how it ends. -/
structure Outcome where
  printed : String
  ending : Ending
  deriving Repr, DecidableEq

/-- The exit code: zero only if all went well. -/
def Ending.code : Ending → Nat
  | .done => 0
  | .failed _ => 1
  | .misuse => 2

/-- Replaces an error by a failure. -/
def orFail (failure : Failure) : Except ε τ → Except Failure τ := Except.mapError fun _ => failure

/-- The parameters of a request, none of them if it has no text. -/
def RunRequest.params? (r : RunRequest) : Except Failure (Json Float) :=
  match r.params with
  | none => .ok (.obj [])
  | some text => match Json.parse text with
    | some params => .ok params
    | none => .error .paramsNotJson

/-- The bars of a file. -/
def loadBars (files : Files) (order : Csv.TimeOrder) (path : String) :
    Except Csv.LoadError (Bars Float) :=
  match files path with
  | some bytes => Csv.load order bytes.toList
  | none => .error (.notFound path)

/-- The report on a request. -/
def report (files : Files) (settings : Settings) (r : RunRequest) : Except Failure String := do
  let entry ← orFail (.unknownIndicator r.indicator) (Catalog.find r.indicator)
  let params := withSource settings.evaluation.defaultSource entry.defaultConfig (← r.params?)
  let handler ← orFail (.invalidParams r.indicator) (Catalog.create r.indicator params)
  let bars ← orFail (.bars r.data) (loadBars files (if r.sort then .sort else .strict) r.data)
  let values := evaluate settings.caching handler bars
  return match r.output with
    | .text => tableText settings.evaluation.precision bars values
    | .json => documentText r.indicator params bars values

/-- The settings written out. What comes before them is printed in any case. -/
def validation (path : Option String) (settings : Settings) : Outcome :=
  let file := match path with
    | some path => s!"Configuration file: {path}"
    | none => "No configuration file; using defaults and environment"
  let head := lines [file, "Configuration is valid!", ""]
  match settings.document? with
  | some text => ⟨head ++ lines [text], .done⟩
  | none => ⟨head, .failed .noDocument⟩

/-- Carries out an invocation. -/
def perform (files : Files) (vars : Variables) (i : Invocation) : Outcome :=
  match Settings.load files i.settings vars with
  | .error _ => ⟨"", .failed (.settings i.settings)⟩
  | .ok settings => match i.task with
    | .list verbose => ⟨catalogText verbose, .done⟩
    | .validate => validation i.settings settings
    | .run request => match report files settings request with
      | .ok text => ⟨text, .done⟩
      | .error failure => ⟨"", .failed failure⟩

/-- What the program tells about its use. -/
def helpText : String := lines [
  "Evaluate technical-analysis indicators over bar data",
  "",
  "Usage: barwise [OPTIONS] <COMMAND>",
  "",
  "Commands:",
  "  list             List available indicators",
  "  run              Evaluate one indicator over a CSV file of bars",
  "  validate-config  Validate configuration",
  "  help             Print this message or the help of the given subcommand(s)",
  "",
  "Options:",
  "  -c, --config <CONFIG>        Configuration file path (TOML) [env: BARWISE_CONFIG=]",
  "  -l, --log-level <LOG_LEVEL>  Log level (defaults to the configured level) "
    ++ "[possible values: trace, debug, info, warn, error]",
  "      --json-logs              Enable JSON log format",
  "  -h, --help                   Print help",
  "  -V, --version                Print version"]

/-- The name of the program and its version. -/
def versionText : String := lines ["barwise 0.1.0"]

/-- The variable that names the file with settings. -/
def settingsVariable : String := "BARWISE_CONFIG"

/-- The invocation that arguments and variables spell. -/
def invocation (args : List String) (vars : Variables) : Except Halt Invocation :=
  Invocation.ofArguments (vars.lookup settingsVariable) args

/-- The paths of the files that a run of the program may read. -/
def paths (args : List String) (vars : Variables) : List String :=
  match invocation args vars with
  | .ok i =>
    let data := match i.task with
      | .run r => [r.data]
      | _ => []
    i.settings.toList.flatMap Settings.paths ++ data
  | .error _ => []

/-- A run of the program. -/
def run (args : List String) (files : Files) (vars : Variables) : Outcome :=
  match invocation args vars with
  | .ok i => perform files vars i
  | .error .help => ⟨helpText, .done⟩
  | .error .version => ⟨versionText, .done⟩
  | .error .misuse => ⟨"", .misuse⟩

end Chartist.Command
