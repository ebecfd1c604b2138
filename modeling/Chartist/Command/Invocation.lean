import Chartist.Command.Switch

/-!
# Invocations

What the arguments of the program ask for. Switches in front of the command hold for all
commands; those after it are the command's own.
-/

namespace Chartist.Command

/-- How much is logged. -/
inductive LogLevel where
  | trace
  | debug
  | info
  | warn
  | error
  deriving Repr, DecidableEq

namespace LogLevel

def all : List LogLevel := [.trace, .debug, .info, .warn, .error]

def name : LogLevel → String
  | .trace => "trace"
  | .debug => "debug"
  | .info => "info"
  | .warn => "warn"
  | .error => "error"

end LogLevel

/-- The form of a report. -/
inductive ReportForm where
  | text
  | json
  deriving Repr, DecidableEq

namespace ReportForm

def all : List ReportForm := [.text, .json]

def name : ReportForm → String
  | .text => "text"
  | .json => "json"

end ReportForm

/-- A request to evaluate an indicator over the bars of a file. -/
structure RunRequest where
  indicator : String
  data : String
  /-- The configuration, as JSON text. -/
  params : Option String
  sort : Bool
  output : ReportForm
  deriving Repr, DecidableEq

/-- What to do. -/
inductive Task where
  | list (verbose : Bool)
  | run (request : RunRequest)
  | validate
  deriving Repr, DecidableEq

/-- All that the arguments say. -/
structure Invocation where
  /-- The file with settings. -/
  settings : Option String
  logLevel : Option LogLevel
  jsonLogs : Bool
  task : Task
  deriving Repr, DecidableEq

namespace Invocation

/-- A path may not be empty. -/
def isPath (s : String) : Bool := !s.isEmpty

def helpSwitch : Switch := ⟨"help", some 'h', .help⟩

/-- The switches for all commands. -/
def switches : List Switch := [
  ⟨"config", some 'c', .value isPath⟩,
  ⟨"log-level", some 'l', .value ((LogLevel.all.map LogLevel.name).contains ·)⟩,
  ⟨"json-logs", none, .flag⟩,
  helpSwitch,
  ⟨"version", some 'V', .version⟩]

def listSwitches : List Switch := [⟨"verbose", some 'v', .flag⟩, helpSwitch]

def runSwitches : List Switch := [
  ⟨"indicator", some 'i', .value fun _ => true⟩,
  ⟨"data", some 'd', .value isPath⟩,
  ⟨"params", some 'p', .value fun _ => true⟩,
  ⟨"sort", none, .flag⟩,
  ⟨"output", some 'o', .value ((ReportForm.all.map ReportForm.name).contains ·)⟩,
  helpSwitch]

/-- The names of the commands. -/
def commands : List String := ["list", "run", "validate-config", "help"]

/-- The switches of a command, which takes nothing else. -/
def scanAll (switches : List Switch) (args : List String) : Except Halt Called := do
  return (← scanSwitches switches [] [] args).1

/-- A request from the switches of its command. -/
def request (called : Called) : Except Halt RunRequest :=
  match called.lookup "indicator", called.lookup "data" with
  | some indicator, some data =>
    .ok {
      indicator, data
      params := called.lookup "params"
      sort := called.has "sort"
      output := ((called.lookup "output").bind fun name =>
        ReportForm.all.find? (·.name == name)).getD .text }
  | _, _ => .error .misuse

/-- What a command with its arguments asks for. -/
def taskOf : List String → Except Halt Task
  | "list" :: args => return .list ((← scanAll listSwitches args).has "verbose")
  | "run" :: args => return .run (← request (← scanAll runSwitches args))
  | "validate-config" :: args => do
    let _ ← scanAll [helpSwitch] args
    return .validate
  | ["help"] => .error .help
  | ["help", command] => .error (if commands.contains command then .help else .misuse)
  | _ => .error .misuse

/-- What arguments ask for. `settings` is the file with settings for when no argument names
one. -/
def ofArguments (settings : Option String) (args : List String) : Except Halt Invocation := do
  let (called, rest) ← scanSwitches switches commands [] args
  let task ← taskOf rest
  let file := match called.lookup "config" with
    | some path => some path
    | none => settings
  if file = some "" then throw .misuse
  return {
    settings := file
    logLevel := (called.lookup "log-level").bind fun name =>
      LogLevel.all.find? (·.name == name)
    jsonLogs := called.has "json-logs"
    task }

end Invocation

end Chartist.Command
