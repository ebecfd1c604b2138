import Chartist.Decimal.Binary64

/-!
# The fewest digits that read back

A positive binary64 number stands for an interval of reals: those that round to it. Its
shortest decimal has the fewest digits among the decimals of that interval, and of those
with that many digits it is the nearest to the number. `shortest` looks at the grids of
1, 2, 3, … significant digits in turn; on each grid only the two neighbours of the number
have to be tried, because a grid point of the interval has one of them between itself and
the number, or is one.

All arithmetic is exact, on fractions with one common denominator.
-/

namespace Chartist.Decimal

/-- A decimal `0.d₁d₂…dₙ * 10 ^ point`, its digits given as one number without zeros at
the end. -/
structure Digits where
  digits : Nat
  point : Int
  deriving Repr, DecidableEq

/-- The number of decimal digits of `n`; one for zero. -/
def digitCount (n : Nat) : Nat := (Nat.toDigits 10 n).length

/-- A fraction `num / den` as `num * 10 ^ p / den`, for any integer `p`. -/
def scale (num den : Nat) (p : Int) : Nat × Nat :=
  match p with
  | .ofNat p => (num * tenPow p, den)
  | .negSucc p => (num, den * tenPow (p + 1))

/-- The `p` with `10 ^ (p - 1) ≤ num / den < 10 ^ p`, for positive `num` and `den`. -/
def decimalPoint (num den : Nat) : Int :=
  if den ≤ num then digitCount (num / den)
  else
    let t := digitCount (den / num)
    if den ≤ num * tenPow (t - 1) then 2 - t else 1 - t

/-- The numerators, over one denominator, of the lower end of a rounding interval, the
number itself and the upper end. -/
structure Span where
  low : Nat
  value : Nat
  high : Nat
  den : Nat
  /-- The ends round to the number too. -/
  closed : Bool

/-- The rounding interval of `mantissa * 2 ^ exponent`. The lower neighbour of a power of
two is nearer than the upper one, except at the least exponent. -/
def Span.of (mantissa : Nat) (exponent : Int) : Span :=
  let below := if mantissa = leadingMantissa ∧ minExponent < exponent then 1 else 2
  let closed := mantissa % 2 = 0
  match exponent - 2 with
  | .ofNat e =>
    let unit := twoPow e
    ⟨(4 * mantissa - below) * unit, 4 * mantissa * unit, (4 * mantissa + 2) * unit, 1, closed⟩
  | .negSucc e =>
    ⟨4 * mantissa - below, 4 * mantissa, 4 * mantissa + 2, twoPow (e + 1), closed⟩

/-- The fraction `num / den` lies in the interval. -/
def Span.holds (s : Span) (num den : Nat) : Bool :=
  if s.closed then s.low * den ≤ num * s.den ∧ num * s.den ≤ s.high * den
  else s.low * den < num * s.den ∧ num * s.den < s.high * den

/-- Drops the zeros at the end of a positive number, at most `fuel` of them. -/
def dropZeros : Nat → Nat → Nat
  | 0, n => n
  | fuel + 1, n => if n % 10 = 0 then dropZeros fuel (n / 10) else n

/-- How an exact tie between two shortest decimals is settled. -/
inductive Tie where
  | up
  | even
  deriving Repr, DecidableEq

/-- The decimal of `n` digits nearest to the number, if it lies in the interval. -/
def Span.onGrid (s : Span) (tie : Tie) (point : Int) (n : Nat) : Option Digits :=
  let (num, den) := scale s.value s.den (n - point)
  let lower := num / den
  -- a grid point `d` stands for `d * 10 ^ (point - n)`
  let inside (d : Nat) : Bool :=
    let (dn, dd) := scale d 1 (point - n)
    s.holds dn dd
  let pick (d : Nat) : Digits := ⟨dropZeros n d, if d = tenPow n then point + 1 else point⟩
  let twice := 2 * (num % den)
  let upFirst := den < twice || (twice == den && (tie == .up || lower % 2 == 1))
  match inside lower, inside (lower + 1) with
  | true, true => some (pick (if upFirst then lower + 1 else lower))
  | true, false => some (pick lower)
  | false, true => some (pick (lower + 1))
  | false, false => none

/-- The first grid of at least `n` digits with a hit, among `fuel` grids. -/
def Span.search (s : Span) (tie : Tie) (point : Int) : Nat → Nat → Digits
  | 0, n => ((s.onGrid tie point n).getD ⟨0, point⟩)
  | fuel + 1, n =>
    match s.onGrid tie point n with
    | some d => d
    | none => s.search tie point fuel (n + 1)

/-- The shortest decimal of the positive number `mantissa * 2 ^ exponent`. Seventeen digits
always suffice. -/
def shortest (tie : Tie) (mantissa : Nat) (exponent : Int) : Digits :=
  let s := Span.of mantissa exponent
  s.search tie (decimalPoint s.value s.den) 16 1

end Chartist.Decimal
