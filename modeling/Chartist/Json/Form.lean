import Chartist.Json.Decode

/-!
# JSON forms

A `Form` is a way to write the values of a type as JSON and to read them back. Reading is
more liberal than writing: it accepts arrays for records and whole numbers for numbers, and
completes records by their defaults. What was written always reads back.
-/

namespace Chartist.Json

/-- How the values of `τ` are written as JSON and read back. -/
structure Form (α τ : Type) where
  encode : τ → Json α
  decode : Json α → Decoded τ

namespace Form

variable {α τ : Type}

/-- Counts of 64 bits. -/
def nat : Form α Nat := ⟨.count, Json.nat⟩

/-- Counts of 32 bits. -/
def nat32 : Form α Nat := ⟨.count, natOfBits 32⟩

/-- Signed integers of 64 bits. -/
def int64 : Form α Int := ⟨.int, Json.int64⟩

/-- Numbers. -/
def number [Scalar α] : Form α α := ⟨.real, Json.number⟩

def boolean : Form α Bool := ⟨.bool, Json.boolean⟩

def string : Form α String := ⟨.str, Json.string⟩

/-- Any JSON value stands for itself. -/
def any : Form α (Json α) := ⟨id, .ok⟩

/-- Lists. -/
def list (f : Form α τ) : Form α (List τ) := ⟨Json.list f.encode, listOf f.decode⟩

/-- The values of a list, by name. -/
def choice (all : List τ) (name : τ → String) : Form α τ :=
  ⟨fun x => .str (name x), Json.choice all name⟩

/-- The JSON that a JSON value becomes when it is read and written again. -/
def normalize (f : Form α τ) (j : Json α) : Decoded (Json α) := (f.decode j).map f.encode

end Form

end Chartist.Json
