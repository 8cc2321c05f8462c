import RangeStore.Schema.Catalog
import RangeStore.Schema.Row
import RangeStore.Tree.BulkLoad
import RangeStore.Tree.Entries
set_option autoImplicit false

/-! # The content of a database

What tables and rows become before a tree is built: the sorted entries of the catalog, of the
rows under their primary keys, and of the rows in all indexes. -/

namespace RangeStore

/-- Why there is no database. -/
inductive DatabaseError where
  | duplicateTable (name : String)
  /-- Two tables have a key space in common. -/
  | keySpaceConflict (table other : String)
  | unknownTable (name : String)
  | row (table : String) (error : RowError)
  | duplicateKey (table shown : String)
  | build (error : BuildError)
  | catalog (error : CatalogError)
  | store (error : StoreError)
deriving DecidableEq

namespace DatabaseError

def message : DatabaseError → String
  | duplicateTable name => "duplicate table: " ++ name
  | keySpaceConflict table other => "key space of " ++ table ++ " overlaps " ++ other
  | unknownTable name => "unknown table: " ++ name
  | row table e => "invalid row for " ++ table ++ ": " ++ e.message
  | duplicateKey table shown => "duplicate primary key in " ++ table ++ ": " ++ shown
  | build e => "build error: " ++ e.message
  | catalog e => "catalog error: " ++ e.message
  | store e => "store error: " ++ e.message

def causes : DatabaseError → List String
  | row _ e => [e.message]
  | build e => e.message :: e.causes
  | catalog e => e.message :: e.causes
  | store e => e.message :: e.causes
  | _ => []

end DatabaseError

namespace Content

/-- Adds a table to others, with none of which it shares a key space or the name. If it shares key
spaces with several of them, any one may be named as the other; here it is the first by name. -/
def addTable (c : Catalog) (t : Table) : Except DatabaseError Catalog :=
  match c.tables.find? t.overlaps with
  | some other => .error (.keySpaceConflict t.name other.name)
  | none => if t.name ∈ c.names then .error (.duplicateTable t.name) else .ok (c.insert t)

def catalogOf (tables : List Table) : Except DatabaseError Catalog :=
  tables.foldlM addTable .empty

def catalogEntries (c : Catalog) : List Cell := Entries.insertAll (c.tables.map Catalog.entry) []

/-- The entries of a row that is meant for the table of a name: the one under its primary key,
and those in the indexes. -/
def rowEntries (find? : String → Option Table) (row : String × Record) :
    Except DatabaseError (Cell × List Cell) :=
  match find? row.1 with
  | none => .error (.unknownTable row.1)
  | some t =>
    match Row.project t row.2 with
    | .error e => .error (.row row.1 e)
    | .ok values => .ok (Row.primaryEntry t values, Row.indexEntries t values)

/-- Adds a row whose primary key is new. -/
def addRow (c : Catalog) (entries : List Cell) (row : String × Record) :
    Except DatabaseError (List Cell) :=
  match rowEntries c.find? row with
  | .error e => .error e
  | .ok (entry, others) =>
    match Entries.find? entry.key entries with
    | some _ => .error (.duplicateKey row.1 row.2.shown)
    | none => .ok (Entries.insertAll (entry :: others) entries)

/-- The catalog and the sorted entries of tables and rows. -/
def ofRows (tables : List Table) (rows : List (String × Record)) :
    Except DatabaseError (Catalog × List Cell) :=
  match catalogOf tables with
  | .error e => .error e
  | .ok c =>
    match rows.foldlM (addRow c) (catalogEntries c) with
    | .error e => .error e
    | .ok entries => .ok (c, entries)

/-- Adds a row, in the place of another one with the same primary key. -/
def putRow (tables : List Table) (entries : List Cell) (row : String × Record) :
    Except DatabaseError (List Cell) :=
  match rowEntries (fun name => tables.find? (·.name == name)) row with
  | .error e => .error e
  | .ok (entry, others) => .ok (Entries.insertAll (entry :: others) entries)

/-- The sorted entries of tables and rows, where nothing is checked but that each row fits its
table: where two entries have the same key, the later one stays. -/
def entriesOf (tables : List Table) (rows : List (String × Record)) :
    Except DatabaseError (List Cell) :=
  rows.foldlM (putRow tables) (Entries.insertAll (tables.map Catalog.entry) [])

end Content

end RangeStore
