/-!
# Tables of values

A document is a table, and grows as its lines are read. Whether a table may still grow, and
by which kind of line, depends on how it came about: its `Origin`. `Value.descend` walks to
the place that a line speaks of and creates the tables that are missing on the way;
`openTable`, `openNext` and `assign` are the three kinds of lines. None of them replaces
anything.
-/

namespace Chartist.Toml

/-- How a table came about. -/
inductive Origin where
  /-- Between braces; it is complete. -/
  | braces
  /-- By a header of its own, as is the table of the whole document. -/
  | header
  /-- By the header of a table inside it. -/
  | implied
  /-- By a key with dots. -/
  | dotted
  deriving Repr, DecidableEq

/-- A value of a document. -/
inductive Value where
  | text (s : String)
  | integer (n : Int)
  | real (x : Float)
  | boolean (b : Bool)
  /-- A date, a time of day, or both, in the standard spelling. -/
  | moment (s : String)
  | array (items : List Value)
  | table (origin : Origin) (members : List (String × Value))
  /-- The tables of one header in double brackets, newest first. -/
  | tables (items : List Value)

namespace Value

/-- A table without members. -/
def empty (origin : Origin) : Value := .table origin []

/-- The members with that of one key changed or added. -/
def alter (key : String) (f : Option Value → Option Value) :
    List (String × Value) → Option (List (String × Value))
  | [] => (f none).map fun v => [(key, v)]
  | (k, v) :: rest =>
    if k = key then (f (some v)).map fun v => (k, v) :: rest
    else (alter key f rest).map ((k, v) :: ·)

/-- Edits the table at the end of a path. A path of headers may pass any table but one
between braces, and takes the newest of several; a path of dots may not pass a table that
has a header. Tables that are missing are created. -/
def descend (dotted : Bool) (edit : Value → Option Value) : List String → Value → Option Value
  | [], v => edit v
  | key :: rest, .table origin members =>
    let inside : Option Value → Option Value
      | none => descend dotted edit rest (empty (if dotted then .dotted else .implied))
      | some (.table .braces _) => none
      | some (.table .header members) =>
        if dotted then none else descend dotted edit rest (.table .header members)
      | some (.table origin members) => descend dotted edit rest (.table origin members)
      | some (.tables (newest :: older)) =>
        (descend dotted edit rest newest).map fun newest => .tables (newest :: older)
      | some _ => none
    (alter key inside members).map (.table origin)
  | _, _ => none

/-- Edits the member `key` of a table. -/
def editMember (key : String) (f : Option Value → Option Value) : Value → Option Value
  | .table origin members => (alter key f members).map (.table origin)
  | _ => none

/-- A header: the table gets its header now, which it had not before. -/
def openTable (parents : List String) (key : String) (root : Value) : Option Value :=
  let opened : Option Value → Option Value
    | none => some (empty .header)
    | some (.table .implied members) => some (.table .header members)
    | some _ => none
  descend false (editMember key opened) parents root

/-- A header in double brackets: one more table. -/
def openNext (parents : List String) (key : String) (root : Value) : Option Value :=
  let opened : Option Value → Option Value
    | none => some (.tables [empty .header])
    | some (.tables items) => some (.tables (empty .header :: items))
    | some _ => none
  descend false (editMember key opened) parents root

/-- A new member of a table. Its key has dots exactly if keys with dots made the table. -/
def add (dots : Bool) (key : String) (value : Value) : Value → Option Value
  | .table origin members =>
    if (origin == .dotted) == dots && (members.lookup key).isNone then
      some (.table origin (members ++ [(key, value)]))
    else none
  | _ => none

/-- A key and its value, below a table. -/
def assign (table : Value) (path : List String) (key : String) (value : Value) : Option Value :=
  descend true (add (!path.isEmpty) key value) path table

end Value

end Chartist.Toml
