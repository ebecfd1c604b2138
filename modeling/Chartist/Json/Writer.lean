import Chartist.Json.Basic

/-!
# Writing JSON

Two forms: `compact` on one line without blanks, and `pretty` with one member or element on
a line, indented by two blanks a level. Both take the text of a number as an argument.
-/

namespace Chartist.Json

/-- The hexadecimal digit of a number below sixteen. -/
def hexDigit (n : Nat) : Char := Nat.digitChar n

/-- One character inside quotes. Quotes, backslashes and control characters are escaped. -/
def escape (c : Char) : String :=
  if c = '"' then "\\\""
  else if c = '\\' then "\\\\"
  else if c = '\n' then "\\n"
  else if c = '\r' then "\\r"
  else if c = '\t' then "\\t"
  else if c = '\x08' then "\\b"
  else if c = '\x0c' then "\\f"
  else if c.toNat < 32 then
    "\\u00" ++ String.ofList [hexDigit (c.toNat / 16), hexDigit (c.toNat % 16)]
  else c.toString

/-- A quoted string. -/
def quote (s : String) : String :=
  "\"" ++ String.join (s.toList.map escape) ++ "\""

variable {α : Type}

mutual

/-- The text on one line. -/
def compact (number : α → String) : Json α → String
  | .null => "null"
  | .bool b => if b then "true" else "false"
  | .int n => toString n
  | .real x => number x
  | .str s => quote s
  | .arr items => "[" ++ ",".intercalate (compactItems number items) ++ "]"
  | .obj members => "\x7b" ++ ",".intercalate (compactMembers number members) ++ "\x7d"

/-- The texts of the elements. -/
def compactItems (number : α → String) : List (Json α) → List String
  | [] => []
  | item :: rest => compact number item :: compactItems number rest

/-- The texts of the members. -/
def compactMembers (number : α → String) : List (String × Json α) → List String
  | [] => []
  | (name, value) :: rest =>
    (quote name ++ ":" ++ compact number value) :: compactMembers number rest

end

/-- The blanks in front of a line at a level. -/
def indent (level : Nat) : String := "".pushn ' ' (2 * level)

/-- Lines between brackets, or the brackets alone. -/
def block (level : Nat) (opening closing : String) (lines : List String) : String :=
  if lines.isEmpty then opening ++ closing
  else
    opening ++ "\n" ++ ",\n".intercalate (lines.map (indent (level + 1) ++ ·)) ++ "\n"
      ++ indent level ++ closing

mutual

/-- The text over several lines, its first one at `level`. -/
def prettyAt (number : α → String) (level : Nat) : Json α → String
  | .arr items => block level "[" "]" (prettyItems number (level + 1) items)
  | .obj members => block level "\x7b" "\x7d" (prettyMembers number (level + 1) members)
  | .null => "null"
  | .bool b => if b then "true" else "false"
  | .int n => toString n
  | .real x => number x
  | .str s => quote s

/-- The texts of the elements. -/
def prettyItems (number : α → String) (level : Nat) : List (Json α) → List String
  | [] => []
  | item :: rest => prettyAt number level item :: prettyItems number level rest

/-- The texts of the members. -/
def prettyMembers (number : α → String) (level : Nat) :
    List (String × Json α) → List String
  | [] => []
  | (name, value) :: rest =>
    (quote name ++ ": " ++ prettyAt number level value) :: prettyMembers number level rest

end

/-- The text over several lines. -/
def pretty (number : α → String) (value : Json α) : String := prettyAt number 0 value

end Chartist.Json
