import Chartist.Bar
import Chartist.Calendar.Reader
import Chartist.Csv.Record

/-!
# Bars from a table

The first record of a table names its columns, in any order; columns of other names are
ignored. Every other record is a row and becomes a bar. The first row that is no bar is
reported, before any question of order; bars out of time order are refused or sorted, as
asked.
-/

namespace Chartist.Csv

/-- Why a table gives no bars. -/
inductive LoadError where
  | notFound (path : String)
  /-- A row, counted from one, whose cells are no bar. -/
  | badRow (row : Nat)
  | badDate (text : String)
  | empty
  /-- A bar that is not later than the one before it. -/
  | notIncreasing (index : Nat)
  deriving Repr, DecidableEq

/-- The wording of an error. -/
def LoadError.message : LoadError → String
  | .notFound path => s!"Data file not found: {path}"
  | .badRow row => s!"Parse error: row {row}"
  | .badDate text => s!"Parse error: Could not parse date: {text}"
  | .empty => "No bars available"
  | .notIncreasing index => s!"Bars are not in increasing time order at index {index}"

/-! ## Columns -/

/-- What a cell of a row tells. -/
inductive Column where
  | date
  | opening
  | high
  | low
  | close
  | volume
  deriving Repr, DecidableEq

namespace Column

/-- The columns of a table without titles, in their order. -/
def all : List Column := [.date, .opening, .high, .low, .close, .volume]

/-- The titles under which a column is known. -/
def titles : Column → List String
  | .date => ["date", "Date", "timestamp", "Timestamp"]
  | .opening => ["open", "Open"]
  | .high => ["high", "High"]
  | .low => ["low", "Low"]
  | .close => ["close", "Close"]
  | .volume => ["volume", "Volume"]

/-- The column of a title. -/
def ofTitle? (title : String) : Option Column := all.find? (·.titles.contains title)

end Column

/-- Which cell of a row tells what. -/
structure Header where
  columns : List (Option Column)
  /-- The least number of cells of a row. -/
  least : Nat
  deriving Repr, DecidableEq

/-- The header of a table with titles: every row has a cell for each title. -/
def Header.ofTitles (titles : List String) : Header :=
  ⟨titles.map Column.ofTitle?, titles.length⟩

/-- The header of a table whose titles cannot be read. The volume may be missing. -/
def Header.standard : Header := ⟨Column.all.map some, 5⟩

/-- No column is told twice. -/
def Header.isUnambiguous (h : Header) : Bool :=
  Column.all.all fun c => h.columns.count (some c) ≤ 1

/-! ## Rows -/

/-- The text of each field without blanks at its ends, if the record is a text. -/
def cells? (r : Record) : Option (List String) :=
  r.mapM fun field => (String.fromUTF8? ⟨field.toArray⟩).map Text.trim

/-- The header that a record gives. -/
def Header.ofRecord (r : Record) : Header :=
  match cells? r with
  | some titles => .ofTitles titles
  | none => .standard

variable {α : Type} [Scalar α]

/-- A row with its date still as text. -/
structure Row (α : Type) where
  date : String
  opening : α
  high : α
  low : α
  close : α
  volume : α
  deriving Repr, DecidableEq

/-- The row that some cells tell. Without a column for the volume, it is zero. -/
def Header.row? (h : Header) (cells : List String) : Option (Row α) := do
  let cell (c : Column) : Option String := (h.columns.zip cells).lookup (some c)
  let number (c : Column) : Option α := do Decimal.number? (← cell c)
  if cells.length < h.least || !h.isUnambiguous then none
  let volume ← match cell .volume with
    | some text => Decimal.number? text
    | none => some 0
  some {
    date := ← cell .date
    opening := ← number .opening
    high := ← number .high
    low := ← number .low
    close := ← number .close
    volume }

/-- The bar of a row. -/
def Row.bar (r : Row α) : Except LoadError (Bar α) :=
  match Calendar.stamp? r.date with
  | some timestamp => .ok ⟨timestamp, r.opening, r.high, r.low, r.close, r.volume⟩
  | none => .error (.badDate r.date)

/-- The bar of a record at a place among the rows, counted from zero. -/
def Header.bar (h : Header) (r : Record) (index : Nat) : Except LoadError (Bar α) :=
  match (cells? r).bind h.row? with
  | some row => row.bar
  | none => .error (.badRow (index + 1))

/-- The bar of each row of a table. -/
def rows : List Record → List (Except LoadError (Bar α))
  | [] => []
  | first :: rest => rest.mapIdx fun index r => (Header.ofRecord first).bar r index

/-! ## Time order -/

/-- What to do with bars that are not in time order. -/
inductive TimeOrder where
  | strict
  /-- Sort them, equal times in the order of their rows. -/
  | sort
  deriving Repr, DecidableEq

/-- The first place at which a bar is not later than the one before it; `index` is that of
the second bar. -/
def disorder (index : Nat) : Bars α → Option Nat
  | a :: b :: rest =>
    if b.timestamp ≤ a.timestamp then some index else disorder (index + 1) (b :: rest)
  | _ => none

/-- Bars in time order. -/
def TimeOrder.arrange (order : TimeOrder) (bars : Bars α) : Except LoadError (Bars α) :=
  match order, bars with
  | _, [] => .error .empty
  | .sort, bars => .ok (bars.mergeSort fun a b => a.timestamp ≤ b.timestamp)
  | .strict, bars => match disorder 1 bars with
    | some index => .error (.notIncreasing index)
    | none => .ok bars

/-- The bars of rows that all are bars. -/
def TimeOrder.collect (order : TimeOrder) (rows : List (Except LoadError (Bar α))) :
    Except LoadError (Bars α) := do
  order.arrange (← rows.mapM id)

/-- The bars of a table. -/
def load (order : TimeOrder) (bytes : List UInt8) : Except LoadError (Bars α) :=
  order.collect (rows (records bytes))

end Chartist.Csv
