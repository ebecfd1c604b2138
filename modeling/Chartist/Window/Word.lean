import Chartist.Decimal.Power
import Chartist.Window.Rolling

/-!
# Index sums on words

Indices are words of 64 bits, and so are their sums. What becomes of a sum that no word holds is an
`Overflow`: a checked build stops there, an unchecked one goes on with the sum modulo 2^64. The
running extremes form such a sum at every index, that of the window length and the index at the
front of the deque; here they form it on words.

What is to hold a whole window is set aside before the first value is written. A value takes eight
bytes, and a part of memory has fewer than 2^63 of them, so from 2^60 values on there is no such
part, in every build (`Overflow.reserve`). That a machine has less memory than that is left out.
-/

namespace Chartist.Window

/-- The number of words. -/
def wordCount : Nat := Decimal.twoPow 64

theorem wordCount_pos : 0 < wordCount := by decide

/-- The number of values from which on a part of memory cannot hold them. -/
def roomLimit : Nat := Decimal.twoPow 60

theorem roomLimit_le : roomLimit ≤ wordCount := by decide

/-- What becomes of a sum that no word holds. -/
inductive Overflow where
  /-- There is no answer. -/
  | trap
  /-- The sum is taken modulo the number of words. -/
  | wrap
  deriving Repr, DecidableEq

namespace Overflow

variable {α : Type}

/-- The sum of two words. -/
def add (o : Overflow) (a b : Nat) : Option Nat :=
  match o with
  | .trap => if a + b < wordCount then some (a + b) else none
  | .wrap => some ((a + b) % wordCount)

/-- A sum that a word holds is that sum, whatever becomes of others. -/
theorem add_eq (o : Overflow) {a b : Nat} (fits : a + b < wordCount) :
    o.add a b = some (a + b) := by
  cases o with
  | trap => exact if_pos fits
  | wrap => exact congrArg some (Nat.mod_eq_of_lt fits)

theorem trap_add {a b : Nat} (large : wordCount ≤ a + b) : trap.add a b = none :=
  if_neg (Nat.not_lt.mpr large)

/-- The sum of two words that no word holds wraps to less than the first of them. -/
theorem wrap_add {a b : Nat} (word : a < wordCount) (word' : b < wordCount)
    (large : wordCount ≤ a + b) : ∃ sum, wrap.add a b = some sum ∧ sum < a := by
  have once : (a + b) % wordCount = a + b - wordCount := by
    rw [Nat.mod_eq_sub_mod large]
    exact Nat.mod_eq_of_lt (by omega)
  refine ⟨a + b - wordCount, congrArg some once, ?_⟩
  omega

/-- Sets room for so many values aside. -/
def reserve (count : Nat) : Option Unit := guard (count < roomLimit)

theorem reserve_eq {count : Nat} (fits : count < roomLimit) : reserve count = some () :=
  if_pos fits

theorem reserve_eq_none {count : Nat} (large : roomLimit ≤ count) : reserve count = none :=
  if_neg (Nat.not_lt.mpr large)

/-- Drops the front if it has left the window. -/
def expire (o : Overflow) (length stop : Nat) (q : Deque α) : Option (Deque α) :=
  match q.front? with
  | none => some q
  | some front => do
    let past ← o.add front.1 length
    return if past ≤ stop then q.dropLast else q

/-- The extremes of the windows from an index on, given the candidates before it. -/
def extremesFrom (o : Overflow) (keep : α → α → Bool) (length : Nat) :
    Deque α → Nat → List α → Option (List α)
  | _, _, [] => some []
  | q, i, value :: rest => do
    let q ← o.expire length i (q.push keep i value)
    return (q.front?.map (·.2)).getD value :: (← o.extremesFrom keep length q (i + 1) rest)

variable [Scalar α]

/-- The greatest value of the window at every index. -/
def rollingHighest (o : Overflow) (data : List α) (length : Nat) : Option (List α) :=
  o.extremesFrom (fun old new => Scalar.lt new old) length [] 0 data

/-- The least value of the window at every index. -/
def rollingLowest (o : Overflow) (data : List α) (length : Nat) : Option (List α) :=
  o.extremesFrom (fun old new => Scalar.lt old new) length [] 0 data

end Overflow

end Chartist.Window
