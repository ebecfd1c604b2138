import Chartist.Toml.Number
import Chartist.Toml.Text

/-!
# Documents

A document is a sequence of lines: headers, keys with values, comments and empty lines. Each
line edits the table of the document, so a line that contradicts an earlier one is refused
like one that cannot be read.
-/

namespace Chartist.Toml

/-- The greatest number of arrays and tables open at once within a value. -/
def maxOpen : Nat := 79

/-- What follows a comment, if the characters begin with one. -/
def dropComment : List Char → List Char
  | '#' :: cs => cs.dropWhile isPlain
  | cs => cs

/-- What follows blanks, line breaks and comments. A comment has to end in a line break. -/
def dropSpace : Nat → List Char → Option (List Char)
  | 0, _ => none
  | fuel + 1, cs =>
    match dropLines cs with
    | '#' :: cs => do
      let cs ← lineBreak? (cs.dropWhile isPlain)
      dropSpace fuel cs
    | cs => some cs

/-- Blanks, line breaks and comments, each step of which consumes a character. -/
def skipSpace (cs : List Char) : Option (List Char) := dropSpace (cs.length + 1) cs

mutual

/-- A value, with at most `depth` more arrays and tables inside it. Every other step
consumes a character, and `fuel` counts the steps. -/
def scanValue : Nat → Nat → List Char → Option (Value × List Char)
  | 0, _, _ => none
  | fuel + 1, depth, cs =>
    match cs, depth with
    | '"' :: cs, _ => (scanText .double cs).map fun (s, rest) => (.text s, rest)
    | '\'' :: cs, _ => (scanText .single cs).map fun (s, rest) => (.text s, rest)
    | 't' :: 'r' :: 'u' :: 'e' :: cs, _ => some (.boolean true, cs)
    | 'f' :: 'a' :: 'l' :: 's' :: 'e' :: cs, _ => some (.boolean false, cs)
    | '[' :: cs, depth + 1 => (scanItems fuel depth [] cs).map fun (items, rest) =>
        (.array items, rest)
    | '\x7b' :: cs, depth + 1 =>
      match dropBlanks cs with
      | '\x7d' :: rest => some (.empty .braces, rest)
      | cs => scanMembers fuel depth (.empty .header) cs
    | cs, _ => match scanMoment cs with
      | some found => some found
      | none => scanNumber cs

/-- The rest of an array; `done` holds the items that were read, last first. A comma may
follow the last item. -/
def scanItems : Nat → Nat → List Value → List Char → Option (List Value × List Char)
  | 0, _, _, _ => none
  | fuel + 1, depth, done, cs => do
    match ← skipSpace cs with
    | ']' :: rest => some (done.reverse, rest)
    | cs =>
      let (item, cs) ← scanValue fuel depth cs
      match ← skipSpace cs with
      | ',' :: cs => scanItems fuel depth (item :: done) cs
      | ']' :: rest => some ((item :: done).reverse, rest)
      | _ => none

/-- The rest of a table between braces, from its next key on. -/
def scanMembers : Nat → Nat → Value → List Char → Option (Value × List Char)
  | 0, _, _, _ => none
  | fuel + 1, depth, table, cs => do
    let ((path, key), cs) ← scanKey cs
    let (value, cs) ← scanValue fuel depth (dropBlanks (← scanChar '=' cs))
    let table ← table.assign path key value
    match dropBlanks cs, table with
    | ',' :: cs, table => scanMembers fuel depth table cs
    | '\x7d' :: rest, .table _ members => some (.table .braces members, rest)
    | _, _ => none

end

/-- What follows the end of a line: blanks, perhaps a comment, and a line break. -/
def endLine? (cs : List Char) : Option (List Char) :=
  match dropComment (dropBlanks cs) with
  | [] => some []
  | cs => lineBreak? cs

/-- The table of a document, and the path of the header that lines are below. -/
structure Draft where
  root : Value
  header : List String

namespace Draft

def empty : Draft := ⟨.empty .header, []⟩

/-- A header. -/
def openTable (d : Draft) (parents : List String) (key : String) : Option Draft :=
  (d.root.openTable parents key).map (⟨·, parents ++ [key]⟩)

/-- A header in double brackets. -/
def openNext (d : Draft) (parents : List String) (key : String) : Option Draft :=
  (d.root.openNext parents key).map (⟨·, parents ++ [key]⟩)

/-- A key with a value. -/
def assign (d : Draft) (path : List String) (key : String) (value : Value) : Option Draft :=
  (d.root.descend false (·.assign path key value) d.header).map (⟨·, d.header⟩)

end Draft

/-- The draft after a line, and what follows that line up to its end. -/
def scanLine (d : Draft) : List Char → Option (Draft × List Char)
  | '[' :: '[' :: cs => do
    let ((parents, key), cs) ← scanKey cs
    let cs ← scanChar ']' (← scanChar ']' cs)
    some (← d.openNext parents key, cs)
  | '[' :: cs => do
    let ((parents, key), cs) ← scanKey cs
    let cs ← scanChar ']' cs
    some (← d.openTable parents key, cs)
  | cs => do
    let ((path, key), cs) ← scanKey cs
    let cs := dropBlanks (← scanChar '=' cs)
    let (value, cs) ← scanValue (2 * cs.length + 2) maxOpen cs
    some (← d.assign path key value, cs)

/-- The draft after all lines. Each step consumes a character, and `fuel` counts the
steps. -/
def scanLines : Nat → Draft → List Char → Option Draft
  | 0, _, _ => none
  | fuel + 1, d, cs =>
    match dropBlanks cs with
    | [] => some d
    | cs =>
      match endLine? cs with
      | some rest => scanLines fuel d rest
      | none => do
        let (d, cs) ← scanLine d cs
        scanLines fuel d (← endLine? cs)

/-- The table that a document spells, if it spells one. A byte order mark in front of it is
no part of it. -/
def parse (s : String) : Option Value :=
  let cs := match s.toList with
    | '\uFEFF' :: cs => cs
    | cs => cs
  (scanLines (cs.length + 1) .empty cs).map (·.root)

end Chartist.Toml
