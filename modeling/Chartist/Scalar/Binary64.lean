import Chartist.Decimal.Layout
import Chartist.Decimal.Power
import Chartist.Source
import Chartist.Source.SipHash

/-!
# Binary64 numbers as scalars

The instances on which the library runs: IEEE double precision without fused operations,
and codes of contents that are hashes of 64 bits. Different contents may have one code.
-/

namespace Chartist.Scalar

open Decimal

/-- The number nearest to `m * 10 ^ e`, or to `m / 10 ^ e` when `s` is set. Exponents that
lead out of the range on every mantissa are settled before any power is formed. -/
def nearest (m : Nat) (s : Bool) (e : Nat) : Float :=
  if m = 0 then 0.0
  else if s then
    if digitCount m + 400 < e then 0.0 else Float.ofScientific m true e
  else if 400 < e then Float.ofBits 0x7FF0000000000000
  else Float.ofScientific m false e

instance : Scalar Float where
  ofDecimal := nearest
  abs := Float.abs
  sqrt := Float.sqrt
  sin := Float.sin
  cos := Float.cos
  exp := Float.exp
  log := Float.log
  lt := Float.lt
  le := Float.le
  eq := Float.beq
  isNaN := Float.isNaN
  isFinite := Float.isFinite
  before a b := sortKey a ≤ sortKey b
  infinity := Float.ofBits 0x7FF0000000000000
  nan := Float.ofBits 0x7FF8000000000000
  pi := Float.ofBits 0x400921FB54442D18
  logTwo := Float.ofBits 0x3FE62E42FEFA39EF
  text := Layout.plain.write

instance : Fingerprint Float where
  bits x := x.toBits.toNat
  hash words := (sipHash (words.map .ofInt)).toNat

end Chartist.Scalar
