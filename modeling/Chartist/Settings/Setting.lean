import Chartist.Json.Basic
import Chartist.Scalar.Binary64
import Chartist.Toml.Value

/-!
# Values that are not typed yet

A `Setting` is what a file or a variable says before it is known what it is for. Groups of
settings are laid over each other, later ones on top: groups are merged and anything else is
replaced. The case of a key is ignored.
-/

namespace Chartist

/-- A value that is not typed yet. -/
inductive Setting where
  | nothing
  | boolean (b : Bool)
  | integer (n : Int)
  | real (x : Float)
  | text (s : String)
  | list (items : List Setting)
  | group (members : List (String × Setting))

namespace Setting

/-! ## From documents -/

mutual

/-- The setting of a value in a document. -/
def ofToml : Toml.Value → Setting
  | .text s => .text s
  | .integer n => .integer n
  | .real x => .real x
  | .boolean b => .boolean b
  | .moment s => .text s
  | .array items => .list (ofTomlItems items)
  | .table _ members => .group (ofTomlMembers members)
  | .tables newestFirst => .list (ofTomlItems newestFirst).reverse

def ofTomlItems : List Toml.Value → List Setting
  | [] => []
  | v :: rest => ofToml v :: ofTomlItems rest

def ofTomlMembers : List (String × Toml.Value) → List (String × Setting)
  | [] => []
  | (key, v) :: rest => (key, ofToml v) :: ofTomlMembers rest

end

mutual

/-- The setting of a JSON value. An integer beyond 64 bits with a sign is a number. -/
def ofJson : Json Float → Setting
  | .null => .nothing
  | .bool b => .boolean b
  | .int n => if Decimal.isInt64 n then .integer n else .real (Scalar.ofInt n)
  | .real x => .real x
  | .str s => .text s
  | .arr items => .list (ofJsonItems items)
  | .obj members => .group (ofJsonMembers members)

def ofJsonItems : List (Json Float) → List Setting
  | [] => []
  | v :: rest => ofJson v :: ofJsonItems rest

def ofJsonMembers : List (String × Json Float) → List (String × Setting)
  | [] => []
  | (key, v) :: rest => (key, ofJson v) :: ofJsonMembers rest

end

/-! ## Layers -/

/-- Changes or adds a member. What is no group becomes one. -/
def alter (key : String) (f : Option Setting → Setting) : Setting → Setting
  | .group members =>
    if (members.lookup key).isSome then
      .group (members.map fun (k, v) => if k = key then (k, f (some v)) else (k, v))
    else .group (members ++ [(key, f none)])
  | _ => .group [(key, f none)]

mutual

/-- A setting laid over another one, or over none. -/
def onTop : Setting → Option Setting → Setting
  | .group members, old => membersOnTop members (old.getD (.group []))
  | v, _ => v

/-- Members laid over a setting, one after the other. -/
def membersOnTop : List (String × Setting) → Setting → Setting
  | [], old => old
  | (key, v) :: rest, old => membersOnTop rest (old.alter key.toLower (onTop v))

end

/-- A setting laid over the one at the end of a path. -/
def onTopAt : List String → Setting → Option Setting → Setting
  | [], v, old => onTop v old
  | key :: rest, v, old => (old.getD (.group [])).alter key.toLower (onTopAt rest v)

/-- The characters of a part of a path. -/
def isPathChar (c : Char) : Bool := c.isAlphanum || c = '_' || c = '-'

/-- The path that a key spells: its parts between dots, or the key as it is when a part
would be none. -/
def path (key : String) : List String :=
  let parts := key.splitOn "."
  if parts.all fun p => !p.isEmpty && p.all isPathChar then parts else [key]

/-- The settings with those of a file or of variables on top. -/
def layer (below : Setting) (members : List (String × Setting)) : Setting :=
  members.foldl (fun below (key, v) => onTopAt (path key) v (some below)) below

end Setting

end Chartist
