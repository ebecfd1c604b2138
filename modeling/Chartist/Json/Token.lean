import Chartist.Decimal.Numeral
import Chartist.Text.Radix

/-!
# The tokens of JSON text

`Token.scan` cuts a text into punctuation, words, numbers and strings. Blanks between
tokens are skipped. A number is kept as the decimal it spells, so the scanner does no
arithmetic; a string is kept with its escapes resolved.
-/

namespace Chartist.Json

open Decimal

/-- A token of JSON text. -/
inductive Token where
  | openArray
  | closeArray
  | openObject
  | closeObject
  | comma
  | colon
  | null
  | bool (b : Bool)
  /-- A number, and whether it was written without a point and an exponent. -/
  | number (n : Numeral) (whole : Bool)
  | string (s : String)
  deriving Repr, DecidableEq

namespace Token

/-- A fraction, if there is one: a point and at least one digit. -/
def scanFraction : List Char → Option (List Char × List Char)
  | '.' :: cs =>
    let (ds, rest) := spanDigits cs
    if ds.isEmpty then none else some (ds, rest)
  | cs => some ([], cs)

/-- A number without its sign. The integer part has no zero in front of other digits. -/
def scanNumber (negative : Bool) (cs : List Char) : Option (Token × List Char) := do
  let (whole, cs) := spanDigits cs
  if whole.isEmpty || (whole.length > 1 && whole.head? = some '0') then none
  let (fraction, cs) ← scanFraction cs
  let (exponent, cs) ← scanExponent cs
  let numeral := Numeral.ofDigits negative whole fraction (exponent.getD 0)
  some (.number numeral (fraction.isEmpty && exponent.isNone), cs)

/-- The code unit of four hexadecimal digits. -/
def scanUnit (cs : List Char) : Option (Nat × List Char) := Text.scanExactly 16 4 cs

/-- The character after a backslash and a `u`: one code unit, or a surrogate pair. -/
def scanUnicode (cs : List Char) : Option (Char × List Char) := do
  let (unit, rest) ← scanUnit cs
  if 0xD800 ≤ unit ∧ unit < 0xDC00 then
    match rest with
    | '\\' :: 'u' :: rest =>
      let (low, rest) ← scanUnit rest
      if 0xDC00 ≤ low ∧ low < 0xE000 then
        some (Char.ofNat (0x10000 + (unit - 0xD800) * 0x400 + (low - 0xDC00)), rest)
      else none
    | _ => none
  else if 0xDC00 ≤ unit ∧ unit < 0xE000 then none
  else some (Char.ofNat unit, rest)

/-- The character that a one-letter escape stands for. -/
def shortEscape (c : Char) : Option Char :=
  match c with
  | '"' => some '"'
  | '\\' => some '\\'
  | '/' => some '/'
  | 'b' => some '\x08'
  | 'f' => some '\x0c'
  | 'n' => some '\n'
  | 'r' => some '\r'
  | 't' => some '\t'
  | _ => none

/-- A string after its opening quote; `done` holds what was read, last character first.
Each step consumes a character, and `fuel` counts the steps. -/
def scanString : Nat → List Char → List Char → Option (Token × List Char)
  | 0, _, _ => none
  | _ + 1, _, [] => none
  | _ + 1, done, '"' :: rest => some (.string (String.ofList done.reverse), rest)
  | fuel + 1, done, '\\' :: 'u' :: rest => do
    let (c, rest) ← scanUnicode rest
    scanString fuel (c :: done) rest
  | fuel + 1, done, '\\' :: c :: rest => do
    let c ← shortEscape c
    scanString fuel (c :: done) rest
  | fuel + 1, done, c :: rest =>
    if c.toNat < 32 ∨ c = '\\' then none else scanString fuel (c :: done) rest

/-- The token at the front of a text that starts with no blank. -/
def scanOne : List Char → Option (Token × List Char)
  | '[' :: cs => some (.openArray, cs)
  | ']' :: cs => some (.closeArray, cs)
  | '\x7b' :: cs => some (.openObject, cs)
  | '\x7d' :: cs => some (.closeObject, cs)
  | ',' :: cs => some (.comma, cs)
  | ':' :: cs => some (.colon, cs)
  | 'n' :: 'u' :: 'l' :: 'l' :: cs => some (.null, cs)
  | 't' :: 'r' :: 'u' :: 'e' :: cs => some (.bool true, cs)
  | 'f' :: 'a' :: 'l' :: 's' :: 'e' :: cs => some (.bool false, cs)
  | '"' :: cs => scanString (cs.length + 1) [] cs
  | '-' :: cs => scanNumber true cs
  | cs => scanNumber false cs

/-- The blanks that JSON allows between tokens. -/
def isBlank (c : Char) : Bool := c = ' ' || c = '\n' || c = '\t' || c = '\r'

/-- The tokens of a text; each step consumes a character, and `fuel` counts the steps. -/
def scanAll : Nat → List Char → Option (List Token)
  | 0, _ => none
  | fuel + 1, cs =>
    match cs.dropWhile isBlank with
    | [] => some []
    | cs => do
      let (token, rest) ← scanOne cs
      let tokens ← scanAll fuel rest
      some (token :: tokens)

/-- The tokens of a text. -/
def scan (s : String) : Option (List Token) :=
  let cs := s.toList
  scanAll (cs.length + 1) cs

end Token

end Chartist.Json
