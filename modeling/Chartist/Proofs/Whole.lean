import Chartist.Decimal.Power
import Chartist.Proofs.Cache.Node
import Mathlib.Logic.Encodable.Basic
import Mathlib.Logic.Equiv.List

/-!
# Whole numbers as scalars

The instance on which statements about all scalars are tried: arithmetic is exact wherever
its result is whole, every number has its own text and contents have their own codes, so the
laws of cache keys hold (`Whole.keyLaws`).
-/

namespace Chartist

/-- A scalar that is a whole number. -/
structure Whole where
  count : Int
  deriving DecidableEq

namespace Whole

instance : Add Whole := ⟨fun x y => ⟨x.count + y.count⟩⟩

instance : Sub Whole := ⟨fun x y => ⟨x.count - y.count⟩⟩

instance : Mul Whole := ⟨fun x y => ⟨x.count * y.count⟩⟩

instance : Div Whole := ⟨fun x y => ⟨x.count / y.count⟩⟩

instance : Neg Whole := ⟨fun x => ⟨-x.count⟩⟩

/-- Values that are not whole are cut; those that no whole number stands for are zero. -/
instance : Scalar Whole where
  ofDecimal m down e :=
    ⟨.ofNat (if down then m / Decimal.tenPow e else m * Decimal.tenPow e)⟩
  abs x := ⟨.ofNat x.count.natAbs⟩
  sqrt x := ⟨.ofNat x.count.toNat.sqrt⟩
  sin _ := ⟨0⟩
  cos _ := ⟨1⟩
  exp _ := ⟨1⟩
  log _ := ⟨0⟩
  lt x y := x.count < y.count
  le x y := x.count ≤ y.count
  eq x y := x.count = y.count
  isNaN _ := false
  isFinite _ := true
  before x y := x.count ≤ y.count
  infinity := ⟨0⟩
  nan := ⟨0⟩
  pi := ⟨3⟩
  logTwo := ⟨0⟩
  text x := toString x.count

instance : Fingerprint Whole where
  bits x := Encodable.encode x.count
  hash words := Encodable.encode words

theorem collisionFree (known : Contents Whole) : Fingerprint.CollisionFree known :=
  .of_injective (fun _ _ same => congrArg Whole.mk (Encodable.encode_injective same))
    Encodable.encode_injective known

theorem legible_text : Legible (Scalar.text : Whole → String) where
  injective _ _ same := congrArg Whole.mk (legible_int.injective same)
  plain x := legible_int.plain x.count

theorem keyLaws (nodes : List (Node Whole)) : KeyLaws nodes :=
  .of_all legible_text collisionFree nodes

/-- Two bars with whole prices. -/
def twoBars : Bars Whole :=
  [⟨0, ⟨2⟩, ⟨4⟩, ⟨2⟩, ⟨4⟩, ⟨1⟩⟩, ⟨60, ⟨4⟩, ⟨8⟩, ⟨4⟩, ⟨6⟩, ⟨1⟩⟩]

end Whole

end Chartist
