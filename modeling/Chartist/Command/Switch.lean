/-!
# Switches

The switches at the front of a list of arguments. A switch is called by its name after two
dashes or by its letter after one; letters may share a dash. A value follows its switch
after `=`, directly after the letter, or as an argument of its own, which then may not look
like a switch. No switch may be called twice.
-/

namespace Chartist.Command

/-- What a switch does. -/
inductive SwitchKind where
  | flag
  /-- Takes a value of which the test holds. -/
  | value (accepts : String → Bool)
  /-- Ends the reading of arguments. -/
  | help
  | version

/-- A switch. -/
structure Switch where
  name : String
  letter : Option Char
  kind : SwitchKind

/-- Why the reading of arguments ends early. -/
inductive Halt where
  | misuse
  | help
  | version
  deriving Repr, DecidableEq

/-- The values of the switches that were called, a flag with an empty one. -/
abbrev Called := List (String × String)

namespace Called

/-- One more switch. -/
def add (called : Called) (name value : String) : Except Halt Called :=
  if (called.lookup name).isSome then .error .misuse else .ok ((name, value) :: called)

def has (called : Called) (name : String) : Bool := (called.lookup name).isSome

end Called

/-- An argument that calls a switch may not be taken for a value; a dash alone may. -/
def looksLikeSwitch (arg : String) : Bool :=
  match arg.toList with
  | '-' :: _ :: _ => true
  | _ => false

/-- A switch that is called with the given value, if any. The second answer is the name of
the switch if its value has yet to come. -/
def Switch.call (s : Switch) (value : Option String) (called : Called) :
    Except Halt (Called × Option Switch) := do
  match s.kind, value with
  | .flag, none => return (← called.add s.name "", none)
  | .value accepts, some v =>
    if accepts v then return (← called.add s.name v, none) else throw .misuse
  | .value _, none => return (called, some s)
  | .help, none => throw .help
  | .version, none => throw .version
  | _, some _ => throw .misuse

/-- The value given directly after a letter. -/
def attached : List Char → Option String
  | [] => none
  | '=' :: cs => some (String.ofList cs)
  | cs => some (String.ofList cs)

/-- The switches of the letters after one dash. -/
def scanLetters (switches : List Switch) (called : Called) :
    List Char → Except Halt (Called × Option Switch)
  | [] => .ok (called, none)
  | c :: cs =>
    match switches.find? (·.letter == some c) with
    | none => .error .misuse
    | some s => match s.kind with
      | .value _ => s.call (attached cs) called
      | _ => do
        let (called, _) ← s.call none called
        scanLetters switches called cs

/-- The switch of a name after two dashes, perhaps with a value after `=`. -/
def scanName (switches : List Switch) (called : Called) (cs : List Char) :
    Except Halt (Called × Option Switch) :=
  let name := String.ofList (cs.takeWhile (· ≠ '='))
  let value := match cs.dropWhile (· ≠ '=') with
    | _ :: value => some (String.ofList value)
    | [] => none
  match switches.find? (·.name == name) with
  | none => .error .misuse
  | some s => s.call value called

/-- The switch or switches that an argument calls. -/
def scanArgument (switches : List Switch) (called : Called) (arg : String) :
    Except Halt (Called × Option Switch) :=
  match arg.toList with
  | '-' :: '-' :: cs => scanName switches called cs
  | '-' :: c :: cs => scanLetters switches called (c :: cs)
  | _ => .error .misuse

/-- Reads switches up to the name of a command, which is left with what follows it. Two
dashes alone end the switches, and nothing may follow them. -/
def scanSwitches (switches : List Switch) (commands : List String) :
    Called → List String → Except Halt (Called × List String)
  | called, [] => .ok (called, [])
  | called, arg :: rest =>
    if commands.contains arg then .ok (called, arg :: rest)
    else if arg = "--" then if rest.isEmpty then .ok (called, []) else .error .misuse
    else
      match scanArgument switches called arg with
      | .error halt => .error halt
      | .ok (called, none) => scanSwitches switches commands called rest
      | .ok (called, some s) =>
        match rest with
        | [] => .error .misuse
        | value :: rest =>
          if looksLikeSwitch value then .error .misuse
          else
            match s.call (some value) called with
            | .error halt => .error halt
            | .ok (called, _) => scanSwitches switches commands called rest

end Chartist.Command
