/-!
# Powers and ranges

Powers of two and of ten, and the integers that a fixed number of bits can hold.
-/

namespace Chartist.Decimal

/-- Two to a power. -/
def twoPow (n : Nat) : Nat := Nat.pow 2 n

/-- Ten to a power. -/
def tenPow (n : Nat) : Nat := Nat.pow 10 n

/-- An integer that 64 bits with a sign can hold. -/
def isInt64 (n : Int) : Bool := -(twoPow 63 : Int) ≤ n && n < twoPow 63

/-- A count that the given number of bits can hold. -/
def isCount (bits : Nat) (n : Int) : Bool := 0 ≤ n && n < twoPow bits

end Chartist.Decimal
