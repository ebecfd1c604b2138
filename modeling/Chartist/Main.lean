import Chartist.Command.Program

/-!
# The command line

Reads the files and variables that a run of the program may ask for, prints what it prints,
and exits with its code.
-/

namespace Chartist.Command

/-- The contents of a file, unless none can be read at the path. -/
def contents? (path : String) : IO (Option ByteArray) := do
  try
    return some (← IO.FS.readBinFile path)
  catch _ => return none

/-- The variables of the given names that are set. -/
def variablesOf (names : List String) : IO Variables :=
  names.filterMapM fun name => do
    return (← IO.getEnv name).map (name, ·)

/-- Carries out the arguments and gives the exit code. -/
def execute (args : List String) : IO UInt32 := do
  let vars ← variablesOf (settingsVariable :: Settings.variableNames)
  let files ← (paths args vars).filterMapM fun path => do
    return (← contents? path).map (path, ·)
  let outcome := run args (files.lookup ·) vars
  IO.print outcome.printed
  match outcome.ending with
  | .done => pure ()
  | .failed failure => IO.eprintln s!"Error: {failure.message}"
  | .misuse => IO.eprint helpText
  return outcome.ending.code.toUInt32

end Chartist.Command

def main (args : List String) : IO UInt32 := Chartist.Command.execute args
