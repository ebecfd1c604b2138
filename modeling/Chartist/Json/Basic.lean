/-!
# JSON values

A JSON value over a type `α` of numbers. Whole numbers without a point or an exponent are
kept apart from the others, because a count may be given by the former only. The members of
an object are kept in the order of their names, each name once: `Json.insert` is the only
way in which the library adds one.
-/

namespace Chartist

/-- A JSON value. -/
inductive Json (α : Type) where
  | null
  | bool (b : Bool)
  | int (n : Int)
  | real (x : α)
  | str (s : String)
  | arr (items : List (Json α))
  | obj (members : List (String × Json α))

namespace Json

variable {α : Type}

instance : Inhabited (Json α) := ⟨.null⟩

/-- The members with `name` set to `value`, in the order of their names. -/
def insert (name : String) (value : Json α) : List (String × Json α) → List (String × Json α)
  | [] => [(name, value)]
  | (key, old) :: rest =>
    if name < key then (name, value) :: (key, old) :: rest
    else if name = key then (name, value) :: rest
    else (key, old) :: insert name value rest

/-- The object with the given members. Of two members of one name the later one stays. -/
def object (members : List (String × Json α)) : Json α :=
  .obj (members.foldl (fun done (name, value) => insert name value done) [])

/-- The value of a member of an object. -/
def get? (name : String) : Json α → Option (Json α)
  | .obj members => members.lookup name
  | _ => none

/-- A count. -/
def count (n : Nat) : Json α := .int n

/-- The value, or `null`. -/
def orNull (f : τ → Json α) : Option τ → Json α
  | some x => f x
  | none => .null

/-- A list, each element written by `f`. -/
def list (f : τ → Json α) (xs : List τ) : Json α := .arr (xs.map f)

/-- A list of numbers. -/
def reals (xs : List α) : Json α := list .real xs

end Json

end Chartist
