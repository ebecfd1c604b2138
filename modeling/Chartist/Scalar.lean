/-!
# Scalars

The numeric definitions of this library are written once, over any type that offers the
operations of `Scalar`. The class states no law, so a definition can be run on binary64
numbers and reasoned about on exact ones. Comparisons are Boolean: on a type with a value
that compares with nothing they simply fail there.

Choices that an order leaves open are made here, once: which of two equal values a maximum
keeps (`maxNum`), and what clamping does to a value that compares with nothing (`clamp`).
-/

namespace Chartist

/-- The operations that series computations use, without any law. -/
class Scalar (α : Type) extends Add α, Sub α, Mul α, Div α, Neg α where
  /-- The value of `m * 10 ^ e`, or of `m / 10 ^ e` when the flag is set. -/
  ofDecimal : Nat → Bool → Nat → α
  abs : α → α
  sqrt : α → α
  sin : α → α
  cos : α → α
  exp : α → α
  /-- The natural logarithm. -/
  log : α → α
  lt : α → α → Bool
  le : α → α → Bool
  /-- Numeric equality, which need not be identity. -/
  eq : α → α → Bool
  /-- The value is not a number: it compares with nothing. -/
  isNaN : α → Bool
  isFinite : α → Bool
  /-- A total order for sorting: the first argument may stand before the second. -/
  before : α → α → Bool
  /-- A value above every number. -/
  infinity : α
  nan : α
  pi : α
  /-- The natural logarithm of two. -/
  logTwo : α
  /-- The text of a value inside messages and parameter lists. -/
  text : α → String

namespace Scalar

variable {α : Type} [Scalar α]

instance (priority := low) : OfScientific α := ⟨ofDecimal⟩

instance (priority := low) (n : Nat) : OfNat α n := ⟨ofDecimal n false 0⟩

instance (priority := low) : Inhabited α := ⟨0⟩

/-- The value of a count. -/
@[inline] def ofCount (n : Nat) : α := ofDecimal n false 0

/-- The value of an integer. -/
def ofInt : Int → α
  | .ofNat n => ofCount n
  | .negSucc n => -ofCount (n + 1)

/-- The larger of two values. A value that is not a number gives way to the other one, and
of two equal values the first is kept. -/
@[inline] def maxNum (a b : α) : α :=
  if isNaN a then b else if lt a b then b else a

/-- The smaller of two values, with the same rules as `maxNum`. -/
@[inline] def minNum (a b : α) : α :=
  if isNaN a then b else if lt b a then b else a

/-- `x` moved into `[lo, hi]`; a value that compares with nothing stays as it is. -/
@[inline] def clamp (x lo hi : α) : α :=
  let x := if lt x lo then lo else x
  if lt hi x then hi else x

/-- `x` is a number of `[lo, hi]`. -/
@[inline] def within (lo x hi : α) : Bool := le lo x && le x hi

/-- `x` is a number above zero and below infinity. -/
@[inline] def isPositive (x : α) : Bool := isFinite x && lt 0 x

end Scalar

end Chartist
