import Chartist.Text.Radix

/-!
# Texts and keys

The four spellings of a text: in double quotes with escapes or in single quotes without
them, each on one line or, with the quotes written three times, over several. A key is a
word, or a text on one line. Each scanner takes its part off the front of the characters, or
finds that they do not begin with one.
-/

namespace Chartist.Toml

/-- Blanks within a line. -/
def isBlank (c : Char) : Bool := c = ' ' || c = '\t'

/-- What follows the blanks at the front. -/
def dropBlanks (cs : List Char) : List Char := cs.dropWhile isBlank

/-- The characters that stand for themselves in texts and comments: all but control
characters, of which only the tabulator does. -/
def isPlain (c : Char) : Bool := c = '\t' || (0x20 ≤ c.toNat && c.toNat ≠ 0x7F)

/-- What follows the line break at the front. -/
def lineBreak? : List Char → Option (List Char)
  | '\n' :: cs => some cs
  | '\r' :: '\n' :: cs => some cs
  | _ => none

/-- What follows the blanks and line breaks at the front. -/
def dropLines : List Char → List Char
  | ' ' :: cs | '\t' :: cs | '\n' :: cs => dropLines cs
  | '\r' :: '\n' :: cs => dropLines cs
  | cs => cs

/-- The character of a code given by `count` hexadecimal digits. -/
def scanCode (count : Nat) (cs : List Char) : Option (Char × List Char) := do
  let (code, rest) ← Text.scanExactly 16 count cs
  if code.isValidChar then some (Char.ofNat code, rest) else none

/-- The character that an escape stands for, after the backslash. -/
def scanEscape : List Char → Option (Char × List Char)
  | 'b' :: cs => some ('\x08', cs)
  | 't' :: cs => some ('\t', cs)
  | 'n' :: cs => some ('\n', cs)
  | 'f' :: cs => some ('\x0c', cs)
  | 'r' :: cs => some ('\r', cs)
  | '"' :: cs => some ('"', cs)
  | '\\' :: cs => some ('\\', cs)
  | 'u' :: cs => scanCode 4 cs
  | 'U' :: cs => scanCode 8 cs
  | _ => none

/-- A kind of quotes. -/
inductive Quotes where
  | single
  | double
  deriving Repr, DecidableEq

def Quotes.mark : Quotes → Char
  | .single => '\''
  | .double => '"'

/-- A backslash begins an escape. -/
def Quotes.escapes (q : Quotes) : Bool := q == .double

/-- The rest of a text on one line, after its opening quote; `done` holds what was read,
last character first. Each step consumes a character, and `fuel` counts the steps. -/
def scanShort (q : Quotes) : Nat → List Char → List Char → Option (String × List Char)
  | 0, _, _ | _, _, [] => none
  | fuel + 1, done, c :: cs =>
    if c = q.mark then some (String.ofList done.reverse, cs)
    else if c = '\\' ∧ q.escapes then do
      let (c, cs) ← scanEscape cs
      scanShort q fuel (c :: done) cs
    else if isPlain c then scanShort q fuel (c :: done) cs
    else none

/-- What follows an escaped line break, after its backslash: blanks, the break, and all
blanks and breaks after it. -/
def escapedBreak? (cs : List Char) : Option (List Char) :=
  (lineBreak? (dropBlanks cs)).map dropLines

/-- The end of a text over several lines: three quotes, after up to two that still belong
to the text. Gives their number and what follows. -/
def closing? (mark : Char) (cs : List Char) : Option (Nat × List Char) :=
  let run := (cs.takeWhile (· = mark)).length
  if run < 3 then none else some (min run 5 - 3, cs.drop (min run 5))

/-- The rest of a text over several lines. -/
def scanLong (q : Quotes) : Nat → List Char → List Char → Option (String × List Char)
  | 0, _, _ | _, _, [] => none
  | fuel + 1, done, c :: cs =>
    match closing? q.mark (c :: cs) with
    | some (quotes, rest) =>
      some (String.ofList (List.replicate quotes q.mark ++ done).reverse, rest)
    | none =>
      match lineBreak? (c :: cs) with
      | some rest => scanLong q fuel ('\n' :: done) rest
      | none =>
        if c = '\\' ∧ q.escapes then
          match escapedBreak? cs with
          | some rest => scanLong q fuel done rest
          | none => do
            let (c, cs) ← scanEscape cs
            scanLong q fuel (c :: done) cs
        else if isPlain c then scanLong q fuel (c :: done) cs
        else none

/-- A text after its first quote. A line break right after three quotes is not part of it. -/
def scanText (q : Quotes) (cs : List Char) : Option (String × List Char) :=
  match cs with
  | a :: b :: rest =>
    if a = q.mark ∧ b = q.mark then
      scanLong q (rest.length + 1) [] ((lineBreak? rest).getD rest)
    else scanShort q (cs.length + 1) [] cs
  | _ => scanShort q (cs.length + 1) [] cs

/-! ## Keys -/

/-- The characters of a key without quotes. -/
def isWord (c : Char) : Bool := c.isAlphanum || c = '_' || c = '-'

/-- One part of a key. -/
def scanPart : List Char → Option (String × List Char)
  | '"' :: cs => scanShort .double (cs.length + 1) [] cs
  | '\'' :: cs => scanShort .single (cs.length + 1) [] cs
  | cs =>
    let word := cs.takeWhile isWord
    if word.isEmpty then none else some (String.ofList word, cs.dropWhile isWord)

/-- The greatest number of parts of a key. -/
def maxParts : Nat := 80

/-- The parts of a key, with dots between them and blanks around each; at most `fuel`
parts. -/
def scanParts : Nat → List Char → Option (List String × List Char)
  | 0, _ => none
  | fuel + 1, cs => do
    let (part, cs) ← scanPart (dropBlanks cs)
    match dropBlanks cs with
    | '.' :: cs =>
      let (parts, cs) ← scanParts fuel cs
      some (part :: parts, cs)
    | cs => some ([part], cs)

/-- A key: the parts before the last one, and the last one. -/
def scanKey (cs : List Char) : Option ((List String × String) × List Char) := do
  let (parts, rest) ← scanParts maxParts cs
  some ((parts.dropLast, parts.getLast?.getD ""), rest)

end Chartist.Toml
