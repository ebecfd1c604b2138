import Chartist.Json.Reader
import Chartist.Settings.Reader
import Chartist.Toml.Document

/-!
# Loading settings

Settings come from a file, if one is named, and from variables, which are laid over it. The
ending of a file's name tells its format. A name that no file has is tried with each ending.
A variable counts if its name begins with the mark of the program, and two underscores stand
between the parts of its path.
-/

namespace Chartist

/-- The files that can be read, by path. -/
abbrev Files := String → Option ByteArray

/-- Names and values of variables. -/
abbrev Variables := List (String × String)

/-- A format of files with settings. -/
inductive SettingsFormat where
  | toml
  | json
  deriving Repr, DecidableEq

namespace SettingsFormat

def all : List SettingsFormat := [.toml, .json]

/-- The ending of a file name of the format. -/
def ending : SettingsFormat → String
  | .toml => "toml"
  | .json => "json"

/-- The ending of the file name in a path: what follows its last dot, unless nothing stands
before that. -/
def endingOf (path : String) : String :=
  let name := (path.splitOn "/").getLast?.getD ""
  match (name.splitOn ".").reverse with
  | last :: second :: more => if second.isEmpty && more.isEmpty then "" else last
  | _ => ""

/-- The format that a path tells. -/
def ofPath? (path : String) : Option SettingsFormat := all.find? (·.ending == endingOf path)

/-- The settings that a text spells in a format. -/
def parse? (format : SettingsFormat) (text : String) : Option Setting :=
  match format with
  | .toml => (Toml.parse text).map .ofToml
  | .json => (Json.parse text).map .ofJson

end SettingsFormat

namespace Settings

/-- The paths at which a file with settings may be. -/
def paths (path : String) : List String :=
  path :: SettingsFormat.all.map fun format => path ++ "." ++ format.ending

/-- The contents and the format of the file with settings. -/
def locate (files : Files) (path : String) : Except SettingsError (ByteArray × SettingsFormat) :=
  match files path with
  | some bytes => match SettingsFormat.ofPath? path with
    | some format => .ok (bytes, format)
    | none => .error (.unknownFormat path)
  | none =>
    let tried := SettingsFormat.all.findSome? fun format =>
      (files (path ++ "." ++ format.ending)).map (·, format)
    match tried with
    | some found => .ok found
    | none => .error (.noFile path)

/-- The members of the group in a file. -/
def ofFile (files : Files) (path : String) : Except SettingsError (List (String × Setting)) := do
  let (bytes, format) ← locate files path
  match (String.fromUTF8? bytes).bind format.parse? with
  | some (.group members) => .ok members
  | _ => .error (.badSyntax path)

/-- The start of the names of variables with settings. -/
def variableMark : String := "barwise__"

/-- The settings that variables can set. -/
def keys : List (String × List String) :=
  [("app", ["name"]), ("logging", ["level", "format"]), ("cache", ["enabled"]),
    ("evaluation", ["default_source", "precision"])]

/-- The usual names of the variables with settings. -/
def variableNames : List String :=
  keys.flatMap fun (part, fields) =>
    fields.map fun field => (variableMark ++ part ++ "__" ++ field).toUpper

/-- The key of a variable, unless it has nothing to do with settings. -/
def variableKey? (name : String) : Option String :=
  let name := name.toLower
  if name.startsWith variableMark then
    some (".".intercalate ((String.ofList (name.toList.drop variableMark.length)).splitOn "__"))
  else none

/-- The value of a variable: a switch, an integer or a number if it spells one, and a text
otherwise. -/
def variableSetting (value : String) : Setting :=
  match value.toLower with
  | "true" => .boolean true
  | "false" => .boolean false
  | _ => match Decimal.int64? value with
    | some n => .integer n
    | none => match Decimal.number? value with
      | some x => .real x
      | none => .text value

/-- The settings in variables. -/
def ofVariables (vars : Variables) : List (String × Setting) :=
  vars.filterMap fun (name, value) =>
    (variableKey? name).map fun key => (key, variableSetting value)

/-- The settings of a file, if a path is given, with those of the variables on top. -/
def load (files : Files) (path : Option String) (vars : Variables) :
    Except SettingsError Settings := do
  let fromFile ← match path with
    | some path => ofFile files path
    | none => pure []
  let layers := (Setting.group []).layer fromFile
  ofSetting (layers.layer (ofVariables vars))

end Settings

end Chartist
