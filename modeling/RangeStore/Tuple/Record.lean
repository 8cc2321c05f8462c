import RangeStore.Tuple.Value
set_option autoImplicit false

/-! # Records

A record names values by column. It is a row when it covers a table's columns, and one side of
a range when it covers the first few columns of a key. The two lists may differ in length: a
column at the end may then lack its value. -/

namespace RangeStore

/-- Columns and their values, by position. -/
structure Record where
  columns : List String
  values : List Value
deriving DecidableEq, Inhabited

namespace Record

def empty : Record := ⟨[], []⟩

/-- The record of paired columns and values. -/
def ofPairs (pairs : List (String × Value)) : Record := ⟨pairs.map (·.1), pairs.map (·.2)⟩

/-- The record with one more column at the end. -/
def push (r : Record) (column : String) (value : Value) : Record :=
  ⟨r.columns ++ [column], r.values ++ [value]⟩

def size (r : Record) : Nat := r.columns.length

def isEmpty (r : Record) : Bool := r.columns.isEmpty

/-- What the record says of a column: nothing if it does not list it, `some none` if the first
position that lists it lacks a value, and otherwise the value at that position. -/
def find? (r : Record) (column : String) : Option (Option Value) :=
  match r.columns.findIdx? (· == column) with
  | none => none
  | some i => some r.values[i]?

/-- The record as messages show it. -/
def shown (r : Record) : String :=
  let pairs := (r.columns.zip r.values).map fun p => p.1 ++ ": " ++ p.2.shown
  "\x7b" ++ ", ".intercalate pairs ++ "\x7d"

end Record

end RangeStore
