import Chartist.Bar

/-!
# Sources

What a series was computed from, as far as a cache tells data apart: a code, made from the
length and the bits of the contents or agreed on elsewhere. Series and bars share one space
of codes. Which code a list of words gets is left to the type of numbers (`Fingerprint`).
-/

namespace Chartist

/-- The identity of data. -/
structure SourceId where
  code : Nat
  deriving Repr, DecidableEq

/-- How contents are turned into codes. -/
class Fingerprint (α : Type) where
  /-- The bit pattern of a value. -/
  bits : α → Nat
  /-- The code of a list of words. -/
  hash : List Int → Nat

namespace SourceId

/-- The code as sixteen hexadecimal digits. -/
def text (id : SourceId) : String :=
  let digits := String.ofList (Nat.toDigits 16 id.code)
  "".pushn '0' (16 - digits.length) ++ digits

variable {α : Type} [Fingerprint α]

/-- The word of a value. -/
def word (x : α) : Int := Fingerprint.bits x

/-- The words of a bar. -/
def barWords (b : Bar α) : List Int :=
  [b.timestamp, word b.opening, word b.high, word b.low, word b.close, word b.volume]

/-- The identity of a series. -/
def ofSeries (values : Series α) : SourceId :=
  ⟨Fingerprint.hash α (values.length :: values.map word)⟩

/-- The identity of bars. -/
def ofBars (bars : Bars α) : SourceId :=
  ⟨Fingerprint.hash α (bars.length :: bars.flatMap barWords)⟩

end SourceId

end Chartist
