import Chartist.Toml.Text

/-!
# Writing documents

A text is written in the plainest quotes that hold it without need of an escape: double ones
on one line, single ones on one line, double ones written three times, and single ones written
three times. A text that none of them holds is written in double quotes with escapes, over
several lines if it has line breaks. Between double quotes a tabulator is always an escape.
-/

namespace Chartist.Toml

/-- The length of the longest run of a character in a text, `run` of them before it. -/
def longestRun (mark : Char) : Nat → List Char → Nat
  | run, [] => run
  | run, c :: cs =>
    if c = mark then longestRun mark (run + 1) cs else max run (longestRun mark 0 cs)

/-- The characters that need no escape in any quotes, over one line or several. -/
def isLiteral (c : Char) : Bool := c = '\n' || isPlain c

/-- The quotes around a text, written once or, for a long text, three times. -/
structure Quoting where
  quotes : Quotes
  long : Bool

/-- A text can stand in these quotes without need of an escape. -/
def Quoting.holds (q : Quoting) (cs : List Char) : Bool :=
  cs.all isLiteral && !(q.quotes.escapes && cs.contains '\\')
    && longestRun q.quotes.mark 0 cs ≤ (if q.long then 2 else 0)
    && (q.long || !cs.contains '\n')

/-- The plainest quotes that hold a text; double ones, with escapes, if none do. -/
def Quoting.ofText (cs : List Char) : Quoting :=
  let candidates := [⟨.double, false⟩, ⟨.single, false⟩, ⟨.double, true⟩, ⟨.single, true⟩]
  (candidates.find? (·.holds cs)).getD ⟨.double, cs.contains '\n'⟩

/-- A control character as an escape, and any other as it is. -/
def escapeControl (c : Char) : String :=
  let digit (n : Nat) : Char := (Nat.digitChar n).toUpper
  if isPlain c then c.toString
  else "\\u00" ++ String.ofList [digit (c.toNat / 16), digit (c.toNat % 16)]

/-- One character between double quotes, other than these. -/
def escape (long : Bool) (c : Char) : String :=
  match c with
  | '\x08' => "\\b"
  | '\t' => "\\t"
  | '\n' => if long then "\n" else "\\n"
  | '\x0c' => "\\f"
  | '\r' => "\\r"
  | '\\' => "\\\\"
  | c => escapeControl c

/-- A text between double quotes, after `run` quotes that stand as they are. A long text may
have two of them in a row; the next is an escape, after which the count begins anew, as it
does after every other character. -/
def escapeText (long : Bool) : Nat → List Char → String
  | _, [] => ""
  | run, c :: cs =>
    if c = '"' then
      if long && run < 2 then "\"" ++ escapeText long (run + 1) cs
      else "\\\"" ++ escapeText long 0 cs
    else escape long c ++ escapeText long 0 cs

/-- A text between quotes. A long text with line breaks begins on a line of its own. -/
def quote (s : String) : String :=
  let cs := s.toList
  let quoting := Quoting.ofText cs
  let delimiter := "".pushn quoting.quotes.mark (if quoting.long then 3 else 1)
  let opening := if quoting.long && cs.contains '\n' then delimiter ++ "\n" else delimiter
  let body := if quoting.quotes.escapes then escapeText quoting.long 0 cs else s
  opening ++ body ++ delimiter

/-- A table: its header, and its members in lines. -/
def tableText (header : String) (members : List (String × String)) : String :=
  "[" ++ header ++ "]\n" ++ String.join (members.map fun (key, value) => s!"{key} = {value}\n")

end Chartist.Toml
