import RangeStore.Schema.Table
set_option autoImplicit false

/-! # Table drafts

A draft says what a table should be. `Draft.build` checks it and makes the table: it completes
each index by the columns of the primary key that it lacks, so that an index entry is unique and
leads to its row, and it numbers the key spaces of the indexes. -/

namespace RangeStore

/-- Key spaces below this one are reserved. -/
def firstKeySpace : UInt32 := 100

/-- An index as asked for. -/
structure IndexDraft where
  name : String
  columns : List String
deriving DecidableEq, Inhabited

/-- A table as asked for. -/
structure Draft where
  name : String
  columns : List Column
  keyCount : Nat := 1
  keySpace : UInt32 := firstKeySpace
  indexes : List IndexDraft := []
deriving DecidableEq, Inhabited

/-- Why a draft is no table. -/
inductive SchemaError where
  /-- The table, a column or an index has no name. -/
  | emptyName
  | noColumns
  | invalidPrimaryKey (keyCount columns : Nat)
  /-- Two columns share a name, or an index lists a column twice. -/
  | duplicateColumn (name : String)
  | duplicateIndex (name : String)
  | emptyIndex (name : String)
  | unknownColumn (index column : String)
  | reservedKeySpace (keySpace : UInt32)
  /-- The key spaces of the indexes do not fit in 32 bits. -/
  | keySpaceOverflow
deriving DecidableEq

namespace SchemaError

def message : SchemaError → String
  | emptyName => "names must not be empty"
  | noColumns => "table has no columns"
  | invalidPrimaryKey keyCount columns =>
    s!"invalid primary key: {keyCount} key columns for {columns} columns"
  | duplicateColumn name => "duplicate column: " ++ name
  | duplicateIndex name => "duplicate index: " ++ name
  | emptyIndex name => "index has no columns: " ++ name
  | unknownColumn index column => "index " ++ index ++ " refers to unknown column " ++ column
  | reservedKeySpace n => s!"prefix {n.toNat} is reserved (must be >= {firstKeySpace.toNat})"
  | keySpaceOverflow => "index prefixes overflow u32"

end SchemaError

namespace Draft

/-- Each column has a name, and one that is not among `seen` or before it. -/
def checkColumns (seen : List String) : List Column → Except SchemaError Unit
  | [] => .ok ()
  | column :: rest =>
    if column.name = "" then .error .emptyName
    else if column.name ∈ seen then .error (.duplicateColumn column.name)
    else checkColumns (column.name :: seen) rest

/-- Each column of an index is one of the table's, and not among `seen` or before it. -/
def checkIndexColumns (known : List String) (index : String) (seen : List String) :
    List String → Except SchemaError Unit
  | [] => .ok ()
  | column :: rest =>
    if column ∉ known then .error (.unknownColumn index column)
    else if column ∈ seen then .error (.duplicateColumn column)
    else checkIndexColumns known index (column :: seen) rest

/-- The columns of an index, completed by those of the primary key that they lack. -/
def completed (columns primaryKey : List String) : List String :=
  columns ++ primaryKey.filter (· ∉ columns)

/-- Makes the indexes from their drafts; `seen` names those before them, and the first gets the
key space `next`. -/
def buildIndexes (known primaryKey : List String) (seen : List String) (next : Nat) :
    List IndexDraft → Except SchemaError (List Index)
  | [] => .ok []
  | draft :: rest =>
    if draft.name = "" then .error .emptyName
    else if draft.name ∈ seen then .error (.duplicateIndex draft.name)
    else if draft.columns = [] then .error (.emptyIndex draft.name)
    else
      match checkIndexColumns known draft.name [] draft.columns with
      | .error e => .error e
      | .ok () =>
        if UInt32.size ≤ next then .error .keySpaceOverflow
        else
          match buildIndexes known primaryKey (draft.name :: seen) (next + 1) rest with
          | .error e => .error e
          | .ok indexes =>
            .ok (⟨draft.name, completed draft.columns primaryKey, UInt32.ofNat next⟩ :: indexes)

/-- The table that a draft asks for, or the first fault found in it. -/
def build (d : Draft) : Except SchemaError Table :=
  if d.name = "" then .error .emptyName
  else if d.columns = [] then .error .noColumns
  else if d.keyCount = 0 ∨ d.columns.length < d.keyCount then
    .error (.invalidPrimaryKey d.keyCount d.columns.length)
  else if d.keySpace < firstKeySpace then .error (.reservedKeySpace d.keySpace)
  else
    match checkColumns [] d.columns with
    | .error e => .error e
    | .ok () =>
      let names := d.columns.map (·.name)
      match buildIndexes names (names.take d.keyCount) [] (d.keySpace.toNat + 1) d.indexes with
      | .error e => .error e
      | .ok indexes => .ok ⟨d.name, d.columns, d.keyCount, d.keySpace, indexes⟩

end Draft

end RangeStore
