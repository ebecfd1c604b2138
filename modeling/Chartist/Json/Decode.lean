import Chartist.Decimal.Power
import Chartist.Json.Basic
import Chartist.Scalar

/-!
# Typed values from JSON

Reading a typed value off a JSON value, or finding out why that is not possible. A record
is given as an object, or as an array of its fields in their order; fields that are not
given take their default where they have one. A choice between names is given by the name,
or by an object whose one member has that name and no value.
-/

namespace Chartist.Json

/-- Why a JSON value is not a value of some type. -/
inductive DecodeError where
  | wrongKind
  | outOfRange
  | unknownField (name : String)
  | missingField (name : String)
  | wrongLength
  | unknownName (name : String)
  deriving Repr, DecidableEq

/-- A value, or why there is none. -/
abbrev Decoded (τ : Type) := Except DecodeError τ

variable {α : Type}

/-- A count of at most `bits` bits. -/
def natOfBits (bits : Nat) : Json α → Decoded Nat
  | .int n => if Decimal.isCount bits n then .ok n.toNat else .error .outOfRange
  | _ => .error .wrongKind

/-- A count of 64 bits. -/
def nat : Json α → Decoded Nat := natOfBits 64

/-- A signed integer of 64 bits. -/
def int64 : Json α → Decoded Int
  | .int n => if Decimal.isInt64 n then .ok n else .error .outOfRange
  | _ => .error .wrongKind

/-- A number; a whole number stands for the number of that value. -/
def number [Scalar α] : Json α → Decoded α
  | .int n => .ok (Scalar.ofInt n)
  | .real x => .ok x
  | _ => .error .wrongKind

def boolean : Json α → Decoded Bool
  | .bool b => .ok b
  | _ => .error .wrongKind

def string : Json α → Decoded String
  | .str s => .ok s
  | _ => .error .wrongKind

/-- A list, each element read by `read`. -/
def listOf (read : Json α → Decoded τ) : Json α → Decoded (List τ)
  | .arr items => items.mapM read
  | _ => .error .wrongKind

/-- One of the values of `all`, told apart by their names. -/
def named (all : List τ) (name : τ → String) (s : String) : Decoded τ :=
  match all.find? (fun x => name x == s) with
  | some x => .ok x
  | none => .error (.unknownName s)

/-- A choice between the values of `all`. -/
def choice (all : List τ) (name : τ → String) : Json α → Decoded τ
  | .str s => named all name s
  | .obj [(s, .null)] => named all name s
  | _ => .error .wrongKind

/-- The fields of a record that were given. -/
abbrev Record (α : Type) := List (String × Json α)

/-- The fields given for a record with the fields `names`, and no others. -/
def record (names : List String) : Json α → Decoded (Record α)
  | .obj members =>
    match members.find? (fun (name, _) => !names.contains name) with
    | some (name, _) => .error (.unknownField name)
    | none => .ok members
  | .arr items =>
    if items.length ≤ names.length then .ok (names.zip items) else .error .wrongLength
  | _ => .error .wrongKind

/-- The fields given for a record with the fields `names`; other members are ignored. -/
def openRecord (names : List String) : Json α → Decoded (Record α)
  | .obj members => .ok members
  | j => record names j

/-- A field with a default. -/
def Record.field (r : Record α) (name : String) (read : Json α → Decoded τ) (default : τ) :
    Decoded τ :=
  match r.lookup name with
  | some value => read value
  | none => .ok default

/-- A field that has to be given. -/
def Record.required (r : Record α) (name : String) (read : Json α → Decoded τ) : Decoded τ :=
  match r.lookup name with
  | some value => read value
  | none => .error (.missingField name)

end Chartist.Json
