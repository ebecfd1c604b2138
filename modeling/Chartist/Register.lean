import Chartist.Bar

/-!
# Registers of series

A worksheet of series in numbered registers. A copy of a register shares its buffer with the
first one; every other operation makes a series with a buffer of its own, equal contents or
not.
-/

namespace Chartist

/-- A series and the buffer that holds it. -/
structure Register (α : Type) where
  values : Series α
  buffer : Nat
  deriving Repr, DecidableEq

/-- The registers made so far. -/
structure Worksheet (α : Type) where
  registers : List (Register α)
  /-- The number of buffers in use. -/
  buffers : Nat

namespace Worksheet

variable {α : Type}

def empty : Worksheet α := ⟨[], 0⟩

/-- The register of a number. -/
def get? (w : Worksheet α) (n : Nat) : Option (Register α) := w.registers[n]?

/-- The worksheet with one more series, in a buffer of its own. -/
def add (w : Worksheet α) (values : Series α) : Worksheet α :=
  ⟨w.registers ++ [⟨values, w.buffers⟩], w.buffers + 1⟩

/-- The worksheet with a copy of a register, in the buffer of that register. -/
def copy (w : Worksheet α) (n : Nat) : Option (Worksheet α) :=
  (w.get? n).map fun r => { w with registers := w.registers ++ [r] }

/-- The worksheet with a series computed from a register. -/
def map (w : Worksheet α) (n : Nat) (f : α → α) : Option (Worksheet α) :=
  (w.get? n).map fun r => w.add (r.values.map f)

/-- The worksheet with a series computed from two registers, as far as both reach. -/
def zipWith (w : Worksheet α) (m n : Nat) (f : α → α → α) : Option (Worksheet α) := do
  let a ← w.get? m
  let b ← w.get? n
  return w.add (List.zipWith f a.values b.values)

end Worksheet

end Chartist
