import Chartist.Proofs.Cache.Node
import Chartist.Proofs.Decimal.Text

/-!
# Keys of binary64 numbers

The numbers that the library runs on are told from their texts, so what a cache of binary64 numbers
relies on comes down to the identities of contents (`keyLaws`). That these are told apart is a
condition on the contents: a code has 64 bits, and some bars share theirs with others (`collision`).
-/

namespace Chartist.Binary64

theorem keyLaws {nodes : List (Node Float)}
    (free : Fingerprint.CollisionFree (Node.contents nodes)) : KeyLaws nodes :=
  ⟨Decimal.legible_binary64.on _, free⟩

/-- Three bars with fractions, the last one without a close. -/
def gapBars : Bars Float :=
  [⟨0, 4, 4.5, 3.75, 4.25, 1⟩, ⟨60, 4.25, 5.5, 4.25, 5, 1.5⟩,
    ⟨120, 5, 5.25, 4.75, Scalar.nan, 1⟩]

/-- One bar. -/
def loneBar : Bars Float := [⟨0, 100, 102, 99, 100.90790025959723, 1000.2941287944559⟩]

end Chartist.Binary64
