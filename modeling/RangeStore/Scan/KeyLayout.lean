import RangeStore.Schema.Row
import RangeStore.Storage.Source
set_option autoImplicit false

/-! # Where a scan runs

A scan runs over the keys of one key space: the primary key of a table, or one of its indexes.
`KeyLayout.resolve` chooses it — by name, or as the first whose columns begin with those of the
start bound, the primary key before all indexes — and checks that both bounds have values of the
right types for the first few of its columns. -/

namespace RangeStore

/-- Why a scan or a look-up does not give rows. -/
inductive ScanError where
  | tableNotFound (name : String)
  /-- No key of the table begins with these columns. -/
  | unindexedQuery (table : String) (columns : List String)
  | indexNotFound (table index : String)
  /-- Both bounds accept keys in the same direction. -/
  | badRange (start stop : Comparison)
  | typeMismatch (column : String) (expected actual : ColumnType)
  /-- A look-up lacks a column of the primary key. -/
  | missingColumn (table column : String)
  /-- An index entry leads to no row. -/
  | danglingIndexEntry (table index key : String)
  | decode (error : DecodeError)
  | store (error : StoreError)
  /-- The record lists a column without a value. -/
  | absentValue (column : String)
deriving DecidableEq

namespace ScanError

def message : ScanError → String
  | tableNotFound name => "table not found: " ++ name
  | unindexedQuery table columns =>
    "no index on " ++ table ++ " covers columns " ++ Text.quoteList columns
  | indexNotFound table index => "index " ++ index ++ " not found on table " ++ table
  | badRange start stop =>
    "bad range: " ++ start.symbol ++ " and " ++ stop.symbol ++ " scan in the same direction"
  | typeMismatch column expected actual =>
    "column " ++ column ++ " expects " ++ expected.name ++ ", got " ++ actual.name
  | missingColumn table column => "missing key column " ++ column ++ " for table " ++ table
  | danglingIndexEntry table index key =>
    "index " ++ index ++ " on " ++ table ++ " points at missing row " ++ key
  | decode e => "codec error: " ++ e.message
  | store e => "store error: " ++ e.message
  | absentValue column => "no value for column " ++ column

def causes : ScanError → List String
  | decode e => [e.message]
  | store e => e.message :: e.causes
  | _ => []

end ScanError

/-- The key that a scan runs over. -/
inductive KeyChoice where
  | primary
  /-- The index at this position among the table's. -/
  | secondary (position : Nat)
deriving DecidableEq, Inhabited

/-- The shape of the keys of one key space. -/
structure KeyLayout where
  choice : KeyChoice
  /-- The name of the index, or `primary`. -/
  name : String
  keySpace : UInt32
  /-- The columns in the order of the key. -/
  columns : List String
  types : List ColumnType
deriving DecidableEq, Inhabited

namespace KeyLayout

def primary (t : Table) : KeyLayout where
  choice := .primary
  name := "primary"
  keySpace := t.keySpace
  columns := t.primaryKey.map (·.name)
  types := t.primaryKey.map (·.type)

def secondary (t : Table) (position : Nat) (index : Index) : KeyLayout where
  choice := .secondary position
  name := index.name
  keySpace := index.keySpace
  columns := index.columns
  types := index.columns.filterMap t.columnType?

def atPosition? (t : Table) (position : Nat) : Option KeyLayout :=
  t.indexes[position]?.map (secondary t position)

def named? (t : Table) (name : String) : Option KeyLayout :=
  (t.indexPosition? name).bind (atPosition? t)

/-- All layouts of a table, the primary key first. -/
def all (t : Table) : List KeyLayout :=
  primary t :: t.indexes.zipIdx.map fun p => secondary t p.2 p.1

/-- Whether the key begins with the given columns. -/
def leadsWith (l : KeyLayout) (columns : List String) : Bool := columns.isPrefixOf l.columns

/-- The first layout of a table that begins with the given columns. -/
def covering (t : Table) (columns : List String) : Except ScanError KeyLayout :=
  match (all t).find? (·.leadsWith columns) with
  | some layout => .ok layout
  | none => .error (.unindexedQuery t.name columns)

/-- Each value has the type of its column. -/
def checkTypes : List String → List Value → List ColumnType → Except ScanError Unit
  | column :: columns, value :: values, expected :: types =>
    if value.type = expected then checkTypes columns values types
    else .error (.typeMismatch column expected value.type)
  | _, _, _ => .ok ()

/-- The record has values of the right types for the first few columns of the key, and for these
only. -/
def checkBound (l : KeyLayout) (t : Table) (bound : Record) : Except ScanError Unit :=
  if l.leadsWith bound.columns ∧ bound.columns.length = bound.values.length then
    checkTypes bound.columns bound.values l.types
  else .error (.unindexedQuery t.name bound.columns)

/-- The layout for a scan between two bounds, by the name of an index or by the start bound. -/
def resolve (t : Table) (index : Option String) (start stop : Record) :
    Except ScanError KeyLayout := do
  let layout ←
    match index with
    | some name =>
      match named? t name with
      | some layout => .ok layout
      | none => .error (.indexNotFound t.name name)
    | none => covering t start.columns
  layout.checkBound t start
  layout.checkBound t stop
  .ok layout

end KeyLayout

end RangeStore
