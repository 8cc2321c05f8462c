import RangeStore.Schema.Table
import RangeStore.Tree.Node
import RangeStore.Tuple.Code
import RangeStore.Tuple.Record
set_option autoImplicit false

/-! # Rows

A row has one entry under its primary key, whose value holds the other columns,

    key space of the table, columns of the primary key     ->   other columns

and one entry without a value for each index:

    key space of the index, columns of the index           ->

The columns of an index include the primary key, so each of these keys is unique and tells where
the row is. -/

namespace RangeStore

/-- Why a record is no row of a table. -/
inductive RowError where
  /-- The record says nothing of a column. -/
  | missingColumn (column : String)
  | unknownColumn (column : String)
  | typeMismatch (column : String) (expected actual : ColumnType)
  /-- The record lists a column without a value. -/
  | absentValue (column : String)
deriving DecidableEq

namespace RowError

def message : RowError → String
  | missingColumn column => "missing column: " ++ column
  | unknownColumn column => "unknown column: " ++ column
  | typeMismatch column expected actual =>
    "column " ++ column ++ " expects " ++ expected.name ++ ", got " ++ actual.name
  | absentValue column => "no value for column " ++ column

end RowError

namespace Row

def columnValue (r : Record) (column : Column) : Except RowError Value :=
  match r.find? column.name with
  | none => .error (.missingColumn column.name)
  | some none => .error (.absentValue column.name)
  | some (some value) =>
    if value.type = column.type then .ok value
    else .error (.typeMismatch column.name column.type value.type)

def columnValues (r : Record) : List Column → Except RowError (List Value)
  | [] => .ok []
  | column :: rest =>
    match columnValue r column with
    | .error e => .error e
    | .ok value =>
      match columnValues r rest with
      | .error e => .error e
      | .ok values => .ok (value :: values)

/-- A record's values in the order of the table's columns, if it names these columns and no
others. -/
def project (t : Table) (r : Record) : Except RowError (List Value) :=
  match r.columns.find? fun name => (t.columnIndex? name).isNone with
  | some name => .error (.unknownColumn name)
  | none => columnValues r t.columns

def primaryEntry (t : Table) (values : List Value) : Cell :=
  ⟨Tuple.encodeKey t.keySpace (values.take t.keyCount), Tuple.encode (values.drop t.keyCount)⟩

/-- The values of a row in the columns of an index. -/
def indexValues (t : Table) (index : Index) (values : List Value) : List Value :=
  index.columns.filterMap fun name => (t.columnIndex? name).bind fun i => values[i]?

/-- The key of a row in an index. -/
def indexKey (t : Table) (index : Index) (values : List Value) : Bytes :=
  Tuple.encodeKey index.keySpace (indexValues t index values)

def indexEntries (t : Table) (values : List Value) : List Cell :=
  t.indexes.map fun index => ⟨indexKey t index values, []⟩

/-- The row of a primary entry, with the columns in the order of the table. -/
def ofEntry (t : Table) (entry : Cell) : Except DecodeError Record :=
  match Tuple.splitKey entry.key with
  | .error e => .error e
  | .ok (_, body) =>
    match Tuple.decode (t.primaryKey.map (·.type)) body with
    | .error e => .error e
    | .ok keys =>
      match Tuple.decode (t.otherColumns.map (·.type)) entry.value with
      | .error e => .error e
      | .ok others => .ok (.ofPairs ((t.columns.map (·.name)).zip (keys ++ others)))

/-- The values for some names among values for other names; a name that stands for no value at
its first place is a fault, one that does not occur is left out. -/
def pick (columns : List String) (values : List Value) :
    List String → Except DecodeError (List (String × Value))
  | [] => .ok []
  | name :: rest =>
    match columns.findIdx? (· == name) with
    | none => pick columns values rest
    | some i =>
      match values[i]? with
      | none => .error (.absentValue name)
      | some value =>
        match pick columns values rest with
        | .error e => .error e
        | .ok pairs => .ok ((name, value) :: pairs)

/-- The primary key in the key of an index with the given columns and types. -/
def keyOfIndexKey (t : Table) (columns : List String) (types : List ColumnType) (key : Bytes) :
    Except DecodeError Record :=
  match Tuple.splitKey key with
  | .error e => .error e
  | .ok (_, body) =>
    match Tuple.decode types body with
    | .error e => .error e
    | .ok values =>
      match pick columns values (t.primaryKey.map (·.name)) with
      | .error e => .error e
      | .ok pairs => .ok (.ofPairs pairs)

end Row

end RangeStore
