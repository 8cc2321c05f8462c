import RangeStore.Database.Content
import RangeStore.Scan.Rows
import RangeStore.Storage.Memory
import RangeStore.Storage.PageFile
set_option autoImplicit false

/-! # Databases

A database is a tree in a store, with the catalog, the rows and the indexes of its tables. It is
built once from tables and rows, in memory or in a new file, and then answers scans and look-ups;
a file can be opened again later. -/

namespace RangeStore

/-- A database over a store of some kind. -/
structure Database (σ : Type) where
  store : σ
  root : PageId
  tables : Catalog
  settings : Settings

namespace Database

/-! ## Building and opening -/

section

variable {σ : Type} [Storage σ]

/-- Loads tables and rows into a store and commits the root. Gives the store also when that
fails. -/
def build (store : σ) (settings : Settings) (tables : List Table) (rows : List (String × Record)) :
    Except DatabaseError (Database σ) × σ :=
  match Content.ofRows tables rows with
  | .error e => (.error e, store)
  | .ok (c, entries) =>
    match bulkLoad settings.maxNodeKeys entries store with
    | (.error e, store) => (.error (.build e), store)
    | (.ok root, store) =>
      match Storage.commitRoot store root with
      | (.error e, store) => (.error (.store e), store)
      | (.ok (), store) => (.ok ⟨store, root, c, settings⟩, store)

end

/-- Makes a file with tables and rows at a path where none is. Gives also the file that is at the
path afterwards, whether that has succeeded or not. -/
def create (path : String) (found : Option File) (settings : Settings) (tables : List Table)
    (rows : List (String × Record)) :
    Except DatabaseError (Database PageFile) × Option File :=
  match PageFile.create path found with
  | .error e => (.error (.store e), found)
  | .ok file =>
    match build { file with verify := settings.verifyChecksums } settings tables rows with
    | (result, file) => (result, some file.file)

/-- Opens the file that is found at a path. -/
def load (found : Option File) (settings : Settings) :
    Except DatabaseError (Database PageFile) :=
  match PageFile.load found with
  | .error e => .error (.store e)
  | .ok file =>
    let file := { file with verify := settings.verifyChecksums }
    match Catalog.load file.source file.root with
    | .error e => .error (.catalog e)
    | .ok tables => .ok ⟨file, file.root, tables, settings⟩

/-- Makes a file of sorted entries at a path where none is, and opens it. -/
def restore (path : String) (found : Option File) (settings : Settings) (entries : List Cell) :
    Except DatabaseError (Database PageFile) :=
  match PageFile.create path found with
  | .error e => .error (.store e)
  | .ok file =>
    match bulkLoad settings.maxNodeKeys entries file with
    | (.error e, _) => .error (.build e)
    | (.ok root, file) =>
      match file.commitRoot root with
      | (.error e, _) => .error (.store e)
      | (.ok (), file) => load (some file.file) settings

/-! ## Reading -/

/-- The values that a record has for the primary key of a table. -/
def keyValues (t : Table) (key : Record) : List Column → Except ScanError (List Value)
  | [] => .ok []
  | column :: rest =>
    match key.find? column.name with
    | none => .error (.missingColumn t.name column.name)
    | some none => .error (.absentValue column.name)
    | some (some value) =>
      if value.type = column.type then
        match keyValues t key rest with
        | .error e => .error e
        | .ok values => .ok (value :: values)
      else .error (.typeMismatch column.name column.type value.type)

/-- The row of a table under a primary key, read from the tree below a root. -/
def lookup (s : NodeSource) (root : PageId) : RowLookup := fun t key =>
  match keyValues t key t.primaryKey with
  | .error e => .error e
  | .ok values =>
    let sought := Tuple.encodeKey t.keySpace values
    match Cursor.seek s root sought .ge with
    | .error e => .error (.store e)
    | .ok cursor =>
      match cursor.entry? with
      | none => .ok none
      | some entry =>
        if entry.key = sought then
          match Row.ofEntry t entry with
          | .error e => .error (.decode e)
          | .ok row => .ok (some row)
        else .ok none

section

variable {σ : Type} [Storage σ]

def source (db : Database σ) : NodeSource := Storage.source db.store

def scan (db : Database σ) (table : String) (request : ScanRequest) : Except ScanError Scanner :=
  Scanner.ofRequest db.source db.root db.tables db.settings.missPolicy table request

def rowLookup (db : Database σ) : RowLookup := lookup db.source db.root

/-- The row of a table under a primary key. -/
def get (db : Database σ) (table : String) (key : Record) : Except ScanError (Option Record) :=
  match db.tables.find? table with
  | none => .error (.tableNotFound table)
  | some t => db.rowLookup t key

end

def described {σ : Type} (db : Database σ) : String :=
  s!"Database \x7b root: {db.root.toNat}, tables: " ++ Text.quoteList db.tables.names ++
    ", config: " ++ db.settings.described ++ ", .. \x7d"

end Database

end RangeStore
