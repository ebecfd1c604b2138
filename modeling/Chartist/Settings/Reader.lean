import Chartist.Decimal.Spelling
import Chartist.Settings.Basic
import Chartist.Settings.Setting

/-!
# Typed settings

Each reader takes the values of all kinds that can stand for one of its type: a number for a
text, a word for a switch. A section is a group, or a list of its fields in their order.
Fields that are not given take their defaults, unknown ones are ignored, and the section
with the name of the program has to give it.
-/

namespace Chartist

/-- Why there are no settings. -/
inductive SettingsError where
  | noFile (path : String)
  /-- The name of a file tells no known format. -/
  | unknownFormat (path : String)
  | badSyntax (path : String)
  | badValue (name : String)
  | missing (name : String)
  deriving Repr, DecidableEq

namespace Setting

/-- The words for yes and no, in any case. -/
def wordSwitch? (word : String) : Option Bool :=
  let word := word.toLower
  if ["true", "on", "yes"].contains word then some true
  else if ["false", "off", "no"].contains word then some false
  else none

def text? : Setting → Option String
  | .text s => some s
  | .boolean b => some (if b then "true" else "false")
  | .integer n => some (toString n)
  | .real x => some (Scalar.text x)
  | _ => none

def switch? : Setting → Option Bool
  | .boolean b => some b
  | .integer n => some (n != 0)
  | .real x => some (x != 0)
  | .text "1" => some true
  | .text "0" => some false
  | .text s => wordSwitch? s
  | _ => none

/-- The count nearest to a number, within 64 bits. -/
def nearestCount (x : Float) : Nat := x.round.toUInt64.toNat

def count? : Setting → Option Nat
  | .boolean b => some b.toNat
  | .integer n => if 0 ≤ n then some n.toNat else none
  | .real x => some (nearestCount x)
  | .text s => match wordSwitch? s with
    | some b => some b.toNat
    | none => Decimal.count64? s
  | _ => none

/-- The value of a name, in any case. -/
def named? (all : List τ) (name : τ → String) (s : String) : Option τ :=
  all.find? fun x => name x == s.toLower

/-- A choice: its name, or a group whose one key is the name. -/
def choice? (all : List τ) (name : τ → String) : Setting → Option τ
  | .text s => named? all name s
  | .group [(key, _)] => named? all name key
  | _ => none

/-- The fields of a section, by name. -/
abbrev Section := List (String × Setting)

/-- The section of a setting, whose fields have the given names. -/
def section? (fields : List String) : Setting → Option Section
  | .group members => some members
  | .list items => some (fields.zip items)
  | _ => none

/-- A section of the settings; without one, no field is given. -/
def sectionAt (name : String) (fields : List String) (s : Setting) :
    Except SettingsError (Option Section) :=
  match s with
  | .group members => match members.lookup name with
    | none => .ok none
    | some inner => match inner.section? fields with
      | some found => .ok (some found)
      | none => .error (.badValue name)
  | _ => .error (.badValue name)

/-- A field with a default. -/
def field (found : Option Section) (name : String) (read : Setting → Option τ) (default : τ) :
    Except SettingsError τ :=
  match found.bind (·.lookup name) with
  | none => .ok default
  | some s => match read s with
    | some x => .ok x
    | none => .error (.badValue name)

end Setting

namespace Settings

open Setting

/-- The name of the program, which its section has to give. -/
def programName (root : Setting) : Except SettingsError String := do
  let app ← root.sectionAt "app" ["name"]
  match app.map (·.lookup "name") with
  | some none => .error (.missing "name")
  | _ => field app "name" text? ({} : Settings).name

/-- The settings that a group spells. -/
def ofSetting (root : Setting) : Except SettingsError Settings := do
  let default : Settings := {}
  let name ← programName root
  let logging ← root.sectionAt "logging" ["level", "format"]
  let cache ← root.sectionAt "cache" ["enabled"]
  let evaluation ← root.sectionAt "evaluation" ["default_source", "precision"]
  return {
    name
    logging := {
      level := ← field logging "level" text? default.logging.level
      format := ← field logging "format" (choice? LogFormat.all LogFormat.name)
        default.logging.format }
    caching := ← field cache "enabled" switch? default.caching
    evaluation := {
      defaultSource := ← field evaluation "default_source"
        (choice? PriceSource.all PriceSource.name) default.evaluation.defaultSource
      precision := ← field evaluation "precision" count? default.evaluation.precision } }

end Settings

end Chartist
