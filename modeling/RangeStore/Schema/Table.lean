import RangeStore.Tuple.Value
set_option autoImplicit false

/-! # Tables

A table has columns, of which the first few are its primary key, and secondary indexes. Each
key of the store begins with the number of a key space: the table's rows lie in one, the entries
of its indexes in the ones after it, in order. -/

namespace RangeStore

structure Column where
  name : String
  type : ColumnType
deriving DecidableEq, Inhabited

/-- A secondary index: its columns in key order, those of the primary key included. -/
structure Index where
  name : String
  columns : List String
  keySpace : UInt32
deriving DecidableEq, Inhabited

structure Table where
  name : String
  /-- All columns, those of the primary key first. -/
  columns : List Column
  /-- The number of columns in the primary key. -/
  keyCount : Nat
  /-- The key space of the rows. -/
  keySpace : UInt32
  indexes : List Index
deriving DecidableEq, Inhabited

namespace Table

def primaryKey (t : Table) : List Column := t.columns.take t.keyCount

/-- The columns outside the primary key. -/
def otherColumns (t : Table) : List Column := t.columns.drop t.keyCount

/-- The last key space of the table. -/
def lastKeySpace (t : Table) : UInt32 :=
  match t.indexes.getLast? with
  | none => t.keySpace
  | some index => index.keySpace

def columnIndex? (t : Table) (name : String) : Option Nat :=
  t.columns.findIdx? (·.name == name)

def columnType? (t : Table) (name : String) : Option ColumnType :=
  (t.columns.find? (·.name == name)).map (·.type)

def indexPosition? (t : Table) (name : String) : Option Nat :=
  t.indexes.findIdx? (·.name == name)

/-- Whether two tables share a key space. -/
def overlaps (t u : Table) : Bool :=
  t.keySpace ≤ u.lastKeySpace && u.keySpace ≤ t.lastKeySpace

end Table

end RangeStore
