/-!
# A hash of words

SipHash-1-3 with a key of zeros, over words of 64 bits: four words of state, one round for each word
that is taken in, and three more at the end.
-/

namespace Chartist

/-- The state of the hash. -/
structure SipState where
  v0 : UInt64
  v1 : UInt64
  v2 : UInt64
  v3 : UInt64
  deriving Repr, DecidableEq

namespace SipState

/-- The state before any word, for a key of zeros. -/
def start : SipState :=
  ⟨0x736f6d6570736575, 0x646f72616e646f6d, 0x6c7967656e657261, 0x7465646279746573⟩

/-- The bits of a word moved up, those that leave it at the top coming in below. -/
def rotate (x n : UInt64) : UInt64 := x <<< n ||| x >>> (64 - n)

/-- One round of additions, rotations and exclusive ors. -/
def round (s : SipState) : SipState :=
  let v0 := s.v0 + s.v1
  let v1 := rotate s.v1 13 ^^^ v0
  let v0 := rotate v0 32
  let v2 := s.v2 + s.v3
  let v3 := rotate s.v3 16 ^^^ v2
  let v0 := v0 + v3
  let v3 := rotate v3 21 ^^^ v0
  let v2 := v2 + v1
  let v1 := rotate v1 17 ^^^ v2
  let v2 := rotate v2 32
  ⟨v0, v1, v2, v3⟩

/-- Takes a word in. -/
def absorb (s : SipState) (word : UInt64) : SipState :=
  let mixed := round { s with v3 := s.v3 ^^^ word }
  { mixed with v0 := mixed.v0 ^^^ word }

/-- The hash of all that was taken in. -/
def finish (s : SipState) : UInt64 :=
  let last := round (round (round { s with v2 := s.v2 ^^^ 0xff }))
  last.v0 ^^^ last.v1 ^^^ last.v2 ^^^ last.v3

end SipState

/-- The hash of a list of words. The last word that is taken in has the number of bytes, of which
there are eight in a word, in its topmost byte. -/
def sipHash (words : List UInt64) : UInt64 :=
  let length := UInt64.ofNat (8 * words.length) <<< 56
  ((words.foldl SipState.absorb .start).absorb length).finish

end Chartist
