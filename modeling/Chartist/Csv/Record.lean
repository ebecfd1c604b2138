/-!
# Records

Bytes cut into records of fields. Fields are separated by commas, records by line breaks,
and empty lines are no records. A field may stand in quotes, which then hide commas and line
breaks; two quotes inside stand for one. A quote counts only at the start of a field, and
what follows the closing quote belongs to the field as it is.
-/

namespace Chartist.Csv

/-- Where the next byte stands. -/
inductive Place where
  /-- Between two records. -/
  | between
  /-- At the start of a field. -/
  | start
  | plain
  | quoted
  /-- After a quote inside a quoted field. -/
  | afterQuote
  deriving Repr, DecidableEq

/-- What a byte does. -/
inductive Act where
  /-- It belongs to no field. -/
  | skip (next : Place)
  /-- It belongs to the field. -/
  | keep (next : Place)
  | endField
  | endRecord
  deriving Repr, DecidableEq

def comma : UInt8 := 0x2C

def quote : UInt8 := 0x22

/-- A line feed or a carriage return. -/
def isBreak (b : UInt8) : Bool := b == 0x0A || b == 0x0D

/-- A byte outside quotes. -/
def actPlain (b : UInt8) : Act :=
  if b = comma then .endField else if isBreak b then .endRecord else .keep .plain

/-- The first byte of a field. -/
def actStart (b : UInt8) : Act := if b = quote then .skip .quoted else actPlain b

/-- What a byte does at a place. -/
def Place.act (place : Place) (b : UInt8) : Act :=
  match place with
  | .between => if isBreak b then .skip .between else actStart b
  | .start => actStart b
  | .plain => actPlain b
  | .quoted => if b = quote then .skip .afterQuote else .keep .quoted
  | .afterQuote => if b = quote then .keep .quoted else actPlain b

/-- The bytes of a field. -/
abbrev Field := List UInt8

/-- The fields of a record. -/
abbrev Record := List Field

/-- The records of some bytes, given the current field and the fields of its record before
it, both last first. The end of the bytes also ends a record. -/
def recordsFrom : Place → Field → Record → List UInt8 → List Record
  | .between, _, _, [] => []
  | _, field, fields, [] => [(field.reverse :: fields).reverse]
  | place, field, fields, b :: rest =>
    match place.act b with
    | .skip next => recordsFrom next field fields rest
    | .keep next => recordsFrom next (b :: field) fields rest
    | .endField => recordsFrom .start [] (field.reverse :: fields) rest
    | .endRecord => (field.reverse :: fields).reverse :: recordsFrom .between [] [] rest

/-- The bytes without the mark of the encoding at their start. -/
def withoutMark : List UInt8 → List UInt8
  | 0xEF :: 0xBB :: 0xBF :: rest => rest
  | bytes => bytes

/-- The records of some bytes. -/
def records (bytes : List UInt8) : List Record := recordsFrom .between [] [] (withoutMark bytes)

end Chartist.Csv
